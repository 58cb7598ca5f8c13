import ClassForge.Listing.Text
import Mathlib.Data.Finset.Card
import Mathlib.Logic.Relation
import Mathlib.Tactic.Common

/-!
# Class files that have a listing

A member is shown by the name of its class and by the constant that it leads to. This is a name
with a descriptor in a sound class file, but it may be a member again, and then that one leads on.
The references end unless they come back to a member where they have been, since there are only so
many constants. A class file has a listing exactly if no member leads back to itself.
-/

namespace ClassForge

open Relation

namespace ClassFile

variable {c : ClassFile} {index next : UInt16}

/-- The constant at an index is a member, and leads to the constant at another. -/
def LeadsTo (c : ClassFile) (index next : UInt16) : Prop :=
  ∃ owner, c.constant? index = some (.fieldRef owner next)
    ∨ c.constant? index = some (.methodRef owner next)
    ∨ c.constant? index = some (.interfaceMethodRef owner next)

theorem LeadsTo.unique {next' : UInt16} (h : c.LeadsTo index next) (h' : c.LeadsTo index next') :
  next = next'
  := by
  obtain ⟨owner, h⟩ := h
  obtain ⟨owner', h'⟩ := h'
  obtain h | h | h := h <;> obtain h' | h' | h' := h' <;> simp_all

/-- A member stands in the pool. -/
theorem LeadsTo.bounds (h : c.LeadsTo index next) :
  index ≠ 0 ∧ index.toNat - 1 < c.constPool.size
  := by
  obtain ⟨r, hr⟩ : ∃ r, c.constant? index = some r := by
    obtain ⟨owner, h | h | h⟩ := h <;> exact ⟨_, h⟩
  unfold constant? at hr
  split at hr
  · contradiction
  · next hne =>
    obtain ⟨hlt, -⟩ := Array.getElem?_eq_some_iff.mp hr
    use hne

/-! ### One reference -/

/-- The summary of a member is that of what it leads to, after its class. -/
theorem summaryBy?_of_leadsTo (h : c.LeadsTo index next) :
  ∃ owner, ∀ next?, c.summaryBy? next? index
    = (next? next).map fun text => c.showClass owner ++ "." ++ text
  := by
  obtain ⟨owner, h⟩ := h
  use owner
  intro next?
  obtain h | h | h := h <;> rw [summaryBy?, h]

/-- Any other constant is shown by itself. -/
theorem summaryBy?_of_not_leadsTo (h : ∀ next, ¬ c.LeadsTo index next) :
  ∃ text, ∀ next?, c.summaryBy? next? index = some text
  := by
  have hmember (owner next : UInt16) : c.constant? index ≠ some (.fieldRef owner next)
      ∧ c.constant? index ≠ some (.methodRef owner next)
      ∧ c.constant? index ≠ some (.interfaceMethodRef owner next) := by
    have hnext := h next
    simp only [LeadsTo, not_exists, not_or] at hnext
    apply hnext owner
  unfold summaryBy?
  cases hr : c.constant? index with
  | none => exact ⟨_, fun _ => rfl⟩
  | some r =>
      cases r with
      | fieldRef owner next => exact absurd hr (hmember owner next).1
      | methodRef owner next => exact absurd hr (hmember owner next).2.1
      | interfaceMethodRef owner next => exact absurd hr (hmember owner next).2.2
      | _ => exact ⟨_, fun _ => rfl⟩

/-- A constant is not shown only if it leads to one that is not. -/
theorem summaryBy?_eq_none_iff {next? : UInt16 → Option String} :
  c.summaryBy? next? index = none ↔ ∃ next, c.LeadsTo index next ∧ next? next = none
  := by
  by_cases h : ∃ next, c.LeadsTo index next
  · obtain ⟨next, hnext⟩ := h
    obtain ⟨owner, hsummary⟩ := summaryBy?_of_leadsTo hnext
    rw [hsummary, Option.map_eq_none_iff]
    constructor
    · intro hnone
      use next
    · rintro ⟨next', hnext', hnone⟩
      rwa [hnext.unique hnext']
  · obtain ⟨text, htext⟩ := summaryBy?_of_not_leadsTo (not_exists.mp h)
    rw [htext]
    constructor
    · intro hnone
      contradiction
    · rintro ⟨next, hnext, -⟩
      apply absurd ⟨next, hnext⟩ h

/-! ### All references -/

/-- The references from a constant come to an end. -/
def Ends (c : ClassFile) (index : UInt16) : Prop :=
  Acc (fun next index => c.LeadsTo index next) index

theorem Ends.of_leadsTo (h : c.LeadsTo index next) (hnext : c.Ends next) :
  c.Ends index
  := by
  constructor
  intro next' h'
  rwa [← h.unique h']

/-- A summary that is given within some steps comes to an end. -/
theorem ends_of_summaryWithin? {steps : Nat} {text : String}
    (h : c.summaryWithin? steps index = some text) :
  c.Ends index
  := by
  induction steps generalizing index text with
  | zero => contradiction
  | succ steps ih =>
      constructor
      intro next hnext
      obtain ⟨owner, hsummary⟩ := summaryBy?_of_leadsTo hnext
      rw [summaryWithin?, hsummary] at h
      obtain ⟨text', htext', -⟩ := Option.map_eq_some_iff.mp h
      apply ih htext'

/-- A constant from which references end is on no circle. -/
theorem Ends.not_transGen (h : c.Ends index) :
  ¬ TransGen c.LeadsTo index index
  := by
  intro hcircle
  rw [← transGen_swap] at hcircle
  have hacc := Acc.transGen h
  clear h
  induction hacc with
  | intro index _ ih => apply ih index hcircle hcircle

/-- Where there is no summary within some steps, there are as many references in a row. -/
theorem exists_chain {steps : Nat} (h : c.summaryWithin? steps index = none) :
  ∃ chain : Nat → UInt16, chain 0 = index ∧ ∀ k < steps, c.LeadsTo (chain k) (chain (k + 1))
  := by
  induction steps generalizing index with
  | zero =>
      use fun _ => index, rfl
      intro k hk
      contradiction
  | succ steps ih =>
      obtain ⟨next, hnext, hnone⟩ := summaryBy?_eq_none_iff.mp h
      obtain ⟨chain, rfl, hchain⟩ := ih hnone
      use fun k => k.casesOn index chain, rfl
      intro k hk
      cases k with
      | zero => apply hnext
      | succ k => apply hchain k (by omega)

theorem transGen_of_chain {chain : Nat → UInt16} {steps a b : Nat}
    (h : ∀ k < steps, c.LeadsTo (chain k) (chain (k + 1))) (hlt : a < b) (hle : b ≤ steps) :
  TransGen c.LeadsTo (chain a) (chain b)
  := by
  induction hlt with
  | refl => exact .single (h a hle)
  | @step b _ ih => exact .tail (ih (by omega)) (h b hle)

/-- More references than there are constants come back to where they have been. -/
theorem exists_circle (h : c.summary? index = none) :
  ∃ place, ReflTransGen c.LeadsTo index place ∧ TransGen c.LeadsTo place place
  := by
  obtain ⟨chain, rfl, hchain⟩ := exists_chain h
  have hbounds (k : Nat) (hk : k < c.summarySteps) := (hchain k hk).bounds
  obtain ⟨a, ha, b, hb, hne, heq⟩ := Finset.exists_ne_map_eq_of_card_lt_of_maps_to
    (s := Finset.range c.summarySteps) (t := Finset.range c.constPool.size)
    (f := fun k => (chain k).toNat - 1) (by simp [summarySteps]) (by
      intro k hk
      simp only [Finset.coe_range, Set.mem_Iio] at hk ⊢
      apply (hbounds k hk).2)
  rw [Finset.mem_range] at ha hb
  have hsame : chain a = chain b := by
    have hpos {k : Nat} (hk : k < c.summarySteps) : (chain k).toNat ≠ 0 := by
      intro hzero
      apply (hbounds k hk).1
      apply UInt16.toNat_inj.mp hzero
    apply UInt16.toNat_inj.mp
    have hpos' := hpos ha
    have hpos'' := hpos hb
    omega
  have hreach {k : Nat} (hk : k < c.summarySteps) : ReflTransGen c.LeadsTo (chain 0) (chain k) := by
    cases k with
    | zero => exact .refl
    | succ k => exact (transGen_of_chain hchain (Nat.succ_pos k) hk.le).to_reflTransGen
  obtain hlt | hlt := Nat.lt_or_gt_of_ne hne
  · use chain a, hreach ha
    have hcircle := transGen_of_chain hchain hlt hb.le
    rwa [← hsame] at hcircle
  · use chain b, hreach hb
    have hcircle := transGen_of_chain hchain hlt ha.le
    rwa [hsame] at hcircle

theorem Ends.of_reflTransGen {place : UInt16} (h : c.Ends index)
    (hreach : ReflTransGen c.LeadsTo index place) :
  c.Ends place
  := by
  induction hreach with
  | refl => apply h
  | tail _ hlast ih => apply Acc.inv ih hlast

/-- A constant is shown exactly if the references from it end. -/
theorem exists_summary?_iff :
  (∃ text, c.summary? index = some text) ↔ c.Ends index
  := by
  constructor
  · rintro ⟨text, htext⟩
    apply ends_of_summaryWithin? htext
  · intro hends
    apply Option.ne_none_iff_exists'.mp
    intro hnone
    obtain ⟨place, hreach, hcircle⟩ := exists_circle hnone
    apply (hends.of_reflTransGen hreach).not_transGen hcircle

theorem summary?_eq_none_iff :
  c.summary? index = none ↔ ¬ c.Ends index
  := by
  rw [← exists_summary?_iff, ← Option.ne_none_iff_exists', not_not]

/-- With more steps the summary is the same. -/
theorem summaryWithin?_succ {steps : Nat} {text : String}
    (h : c.summaryWithin? steps index = some text) :
  c.summaryWithin? (steps + 1) index = some text
  := by
  induction steps generalizing index text with
  | zero => contradiction
  | succ steps ih =>
      rw [summaryWithin?] at h ⊢
      by_cases hleads : ∃ next, c.LeadsTo index next
      · obtain ⟨next, hnext⟩ := hleads
        obtain ⟨owner, hsummary⟩ := summaryBy?_of_leadsTo hnext
        rw [hsummary] at h ⊢
        obtain ⟨text', htext', rfl⟩ := Option.map_eq_some_iff.mp h
        rw [ih htext', Option.map_some]
      · obtain ⟨text', htext'⟩ := summaryBy?_of_not_leadsTo (not_exists.mp hleads)
        rw [htext'] at h ⊢
        apply h

/-- The number of steps makes no difference: a constant is shown with what the constant that it
leads to is shown as. -/
theorem summary?_eq_summaryBy? (c : ClassFile) (index : UInt16) :
  c.summary? index = c.summaryBy? c.summary? index
  := by
  by_cases hleads : ∃ next, c.LeadsTo index next
  · obtain ⟨next, hnext⟩ := hleads
    obtain ⟨owner, hsummary⟩ := summaryBy?_of_leadsTo hnext
    have hwithin : c.summaryWithin? c.constPool.size next = c.summary? next := by
      cases hcut : c.summaryWithin? c.constPool.size next with
      | some text => exact (summaryWithin?_succ hcut).symm
      | none =>
          have hnone : c.summary? index = none :=
            summaryBy?_eq_none_iff.mpr ⟨next, hnext, hcut⟩
          symm
          rw [summary?_eq_none_iff] at hnone ⊢
          intro hends
          apply hnone (hends.of_leadsTo hnext)
    rw [hsummary, ← hwithin, ← hsummary]
    rfl
  · obtain ⟨text, htext⟩ := summaryBy?_of_not_leadsTo (not_exists.mp hleads)
    rw [htext, summary?, summarySteps, summaryWithin?, htext]

/-- All constants are shown exactly if no member leads back to itself. -/
theorem isSome_summary?_iff :
  (∀ index, (c.summary? index).isSome) ↔ ∀ index, ¬ TransGen c.LeadsTo index index
  := by
  constructor
  · intro h index
    apply Ends.not_transGen
    apply exists_summary?_iff.mp (Option.isSome_iff_exists.mp (h index))
  · intro h index
    apply Option.isSome_iff_ne_none.mpr
    intro hnone
    obtain ⟨place, -, hcircle⟩ := exists_circle hnone
    apply h place hcircle

/-! ### The listing -/

theorem isSome_mapM_iff {α β : Type} {f : α → Option β} {as : List α} :
  (as.mapM f).isSome ↔ ∀ a ∈ as, (f a).isSome
  := by
  induction as with
  | nil => simp
  | cons a as ih =>
      rw [List.mapM_cons, List.forall_mem_cons, ← ih]
      cases f a <;> cases as.mapM f <;> simp

theorem isSome_joinLines {α : Type} {lines? : α → Option (List ListingLine)} {items : List α}
    (h : ∀ item ∈ items, (lines? item).isSome) :
  (joinLines lines? items).isSome
  := by
  obtain ⟨lines, hlines⟩ := Option.isSome_iff_exists.mp (isSome_mapM_iff.mpr h)
  simp [joinLines, hlines]

theorem isSome_bodyLines? {α : Type} {lines? : α → Option (List ListingLine)}
    (h : ∀ body, (lines? body).isSome) (name : String) (body : Except ReadFault α) :
  (bodyLines? name body lines?).isSome
  := by
  cases body with
  | error fault => rfl
  | ok body => apply h

section

variable (h : ∀ index, (c.summary? index).isSome)

include h

theorem isSome_recordLine? (r : Record) (position : Nat) :
  (c.recordLine? r position).isSome
  := by
  cases r with
  | fieldRef owner member | methodRef owner member | interfaceMethodRef owner member =>
      obtain ⟨text, htext⟩ := Option.isSome_iff_exists.mp (h member)
      simp [recordLine?, recordText?, memberText?, member?, htext]
  | _ => rfl

/-- The text of operands is given if every index has a summary. -/
theorem isSome_operandsText? (offset : Nat) (operands : Operands) :
  (operands.text? c offset).isSome
  := by
  have hpool (index : UInt16) : ∃ text, Operands.poolText? c index = some text := by
    obtain ⟨text, htext⟩ := Option.isSome_iff_exists.mp (h index)
    simp [Operands.poolText?, htext]
  cases operands with
  | pool8 index => apply Option.isSome_iff_exists.mpr (hpool index.toUInt16)
  | pool16 index | dynamicCall index => apply Option.isSome_iff_exists.mpr (hpool index)
  | interfaceCall index count | arrays index count =>
      obtain ⟨text, htext⟩ := hpool index
      simp [Operands.text?, htext]
  | _ => rfl

/-- The lines of an item of code are given if every index has a summary. -/
theorem isSome_codeItemLines? (item : CodeItem) :
  (item.lines? c).isSome
  := by
  cases item with
  | malformed offset => rfl
  | instruction offset d =>
      obtain ⟨text, htext⟩ := Option.isSome_iff_exists.mp
        (isSome_operandsText? h offset d.operands)
      simp [CodeItem.lines?, htext]

/-- The lines of an attribute are given if every index has a summary. -/
theorem isSome_attributeLines? (a : Attribute) :
  (c.attributeLines? a).isSome
  := by
  unfold attributeLines?
  split
  · apply isSome_bodyLines?
    intro body
    obtain ⟨code, hcode⟩ := Option.isSome_iff_exists.mp
      (isSome_joinLines fun item (_ : item ∈ CodeItem.sweep body.code) =>
        isSome_codeItemLines? h item)
    simp [codeBodyLines?, codeLines?, hcode]
  · apply isSome_bodyLines?
    intro body
    obtain ⟨text, htext⟩ := Option.isSome_iff_exists.mp (h body.index)
    simp [htext]
  · exact isSome_bodyLines? (fun _ => rfl) _ _
  · exact isSome_bodyLines? (fun _ => rfl) _ _
  · exact isSome_bodyLines? (fun _ => rfl) _ _
  · exact isSome_bodyLines? (fun _ => rfl) _ _
  · rfl

/-- The lines of members are given if every index has a summary. -/
theorem isSome_membersLines? (title : String) (readable : String → Bool)
    (members : List MemberInfo) :
  (c.membersLines? title readable members).isSome
  := by
  have hmember (m : MemberInfo) : (c.memberLines? readable m).isSome := by
    obtain ⟨attributes, hattributes⟩ := Option.isSome_iff_exists.mp
      (isSome_joinLines fun a (_ : a ∈ m.attributes) => isSome_attributeLines? h a)
    simp [memberLines?, hattributes]
  unfold membersLines?
  split
  · rfl
  · obtain ⟨lines, hlines⟩ := Option.isSome_iff_exists.mp
      (isSome_joinLines fun m (_ : m ∈ members) => hmember m)
    simp [hlines]

/-- A class file whose constants are all shown has a listing. -/
theorem exists_listing? :
  ∃ text, c.listing? = some text
  := by
  obtain ⟨records, hrecords⟩ := Option.isSome_iff_exists.mp
    (isSome_mapM_iff.mpr fun r (_ : r ∈ c.constPool.toList.zipIdx) =>
      isSome_recordLine? h r.1 r.2)
  obtain ⟨fields, hfields⟩ := Option.isSome_iff_exists.mp
    (isSome_membersLines? h "fields:" (fun d => (Ty.ofDescriptor d).isOk) c.fields)
  obtain ⟨methods, hmethods⟩ := Option.isSome_iff_exists.mp
    (isSome_membersLines? h "methods:" (fun d => (MethodType.ofDescriptor d).isOk) c.methods)
  obtain ⟨attributes, hattributes⟩ := Option.isSome_iff_exists.mp
    (isSome_joinLines fun a (_ : a ∈ c.attributes) => isSome_attributeLines? h a)
  simp [listing?, listingLines?, poolLines?, hrecords, hfields, hmethods, hattributes]

end

/-- In a listing every member is shown with the constant that it leads to. -/
theorem isSome_summary?_of_leadsTo {text : String} (h : c.listing? = some text)
    (hleads : c.LeadsTo index next) :
  (c.summary? next).isSome
  := by
  have hrecords : (c.constPool.toList.zipIdx.mapM fun r => c.recordLine? r.1 r.2).isSome := by
    cases hlines : c.constPool.toList.zipIdx.mapM fun r => c.recordLine? r.1 r.2 with
    | none => simp [listing?, listingLines?, poolLines?, hlines] at h
    | some lines => rfl
  obtain ⟨hne, -⟩ := hleads.bounds
  have hmem {r : Record} (hr : c.constant? index = some r) :
      (r, index.toNat - 1) ∈ c.constPool.toList.zipIdx := by
    rw [constant?, if_neg hne] at hr
    rw [List.mem_zipIdx_iff_getElem?, Array.getElem?_toList]
    apply hr
  obtain ⟨owner, hr | hr | hr⟩ := hleads
  all_goals
    have hline := isSome_mapM_iff.mp hrecords _ (hmem hr)
    cases hnext : c.summary? next with
    | none => simp [recordLine?, recordText?, memberText?, member?, hnext] at hline
    | some text => rfl

/-- A constant is shown with what the constant that it leads to is shown as, if the references from
it end, and not at all otherwise. A class file has a listing exactly if no member leads back to
itself. -/
theorem exists_listing?_iff (c : ClassFile) :
  (∀ index, c.summary? index = c.summaryBy? c.summary? index)
    ∧ (∀ index, (∃ text, c.summary? index = some text) ↔ c.Ends index)
    ∧ ((∃ text, c.listing? = some text) ↔ ∀ index, ¬ TransGen c.LeadsTo index index)
  := by
  refine ⟨c.summary?_eq_summaryBy?, fun index => exists_summary?_iff, ?_, ?_⟩
  · rintro ⟨text, htext⟩ index hcircle
    obtain ⟨next, hnext, -⟩ := TransGen.head'_iff.mp hcircle
    have hends : c.Ends next :=
      exists_summary?_iff.mp (Option.isSome_iff_exists.mp (isSome_summary?_of_leadsTo htext hnext))
    apply (hends.of_leadsTo hnext).not_transGen hcircle
  · intro h
    apply exists_listing? (isSome_summary?_iff.mpr h)

/-- A class file with a single constant, a field whose name and type is the field itself. -/
def ouroboros : ClassFile :=
  ⟨0, 49, 2, #[.fieldRef 0 1], 0x21, 0, 0, 0, [], 0, [], 0, [], 0, []⟩

/-- The class file is read from its bytes, and the references of its constant never end. -/
theorem ouroboros_not_listed :
  ClassFile.parse ouroboros.toBytes = .ok (ouroboros, []) ∧ ¬ ouroboros.Ends 1
    ∧ ouroboros.listing? = none
  := by
  have hleads : ouroboros.LeadsTo 1 1 := ⟨0, .inl rfl⟩
  obtain ⟨-, -, hlisting⟩ := exists_listing?_iff ouroboros
  refine ⟨by decide, fun h => h.not_transGen (.single hleads), ?_⟩
  apply Option.eq_none_iff_forall_not_mem.mpr
  intro text htext
  apply hlisting.mp ⟨text, htext⟩ 1 (.single hleads)

end ClassFile

end ClassForge
