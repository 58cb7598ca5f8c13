import ClassForge.Proofs.Build.Contents
import ClassForge.Proofs.Linking.Lowering

/-!
# Members that are read back

In a class file that holds the records of a pool, each index that was looked up in the pool
denotes the entry that it was looked up for. From there on what is stored for a field or a method
is followed back to the field or the method.
-/

namespace ClassForge

namespace ClassFile.Holds

variable {file : ClassFile} {pool : ConstantPool} (h : file.Holds pool)

include h

theorem denotes_of_mapError {ε : Type} {g : PoolError → ε} {e : PoolEntry} {i : UInt16}
    (hi : (pool.freeze.indexOf e).mapError g = .ok i) :
  file.Denotes i e
  := h.denotes (Except.mapError_eq_ok_iff.mp hi)

/-! ### Attributes -/

theorem attributeOf_eq_ok {name : String} {info : List UInt8} {a : Attribute}
    (ha : pool.freeze.attributeOf name info = .ok a) :
  file.text? a.name = some name ∧ a.info = info
  := by
  obtain ⟨i, hi, ha⟩ := Except.bind_eq_ok_iff.mp ha
  obtain rfl := Except.ok.inj ha
  exact ⟨h.denotes_of_mapError hi, rfl⟩

/-- An attribute with an index has its name, and its body is the index of the entry. -/
theorem indexAttribute_eq_ok {name : String} {e : PoolEntry} {a : Attribute}
    (ha : pool.freeze.indexAttribute name e = .ok a) :
  file.text? a.name = some name ∧ ∃ b, IndexBody.fromBytes a.info = .ok b ∧ file.Denotes b.index e
  := by
  obtain ⟨i, hi, ha⟩ := Except.bind_eq_ok_iff.mp ha
  obtain ⟨hname, hinfo⟩ := h.attributeOf_eq_ok ha
  use hname, ⟨i⟩, IndexBody.fromBytes_eq_ok_iff.mpr hinfo.symm
  apply h.denotes_of_mapError hi

/-- The attribute for a signature tells it, and there is none without a signature. -/
theorem tells_signature {signature : Option String} {as : List Attribute}
    (has : pool.freeze.signatureAttribute signature = .ok as) :
  file.Tells "Signature" file.TellsText signature as
  := by
  cases signature with
  | none =>
      obtain rfl := Except.ok.inj has
      exact .nothing
  | some text =>
      obtain ⟨a, ha, has⟩ := Except.bind_eq_ok_iff.mp has
      obtain rfl := Except.ok.inj has
      obtain ⟨hname, hbody⟩ := h.indexAttribute_eq_ok ha
      exact .something hname hbody

/-- The attributes of a member and the indices of its texts. -/
theorem member_eq_ok {flags : UInt16} {name descriptor : String} {attributes : List Attribute}
    {m : MemberInfo} (hm : pool.freeze.member flags name descriptor attributes = .ok m) :
  m.flags = flags ∧ file.text? m.name = some name ∧ file.text? m.descriptor = some descriptor
    ∧ m.attributes = attributes ∧ m.attributesCount = UInt16.ofNat attributes.length
  := by
  obtain ⟨i, hi, hm⟩ := Except.bind_eq_ok_iff.mp hm
  obtain ⟨j, hj, hm⟩ := Except.bind_eq_ok_iff.mp hm
  obtain rfl := Except.ok.inj hm
  exact ⟨rfl, h.denotes_of_mapError hi, h.denotes_of_mapError hj, rfl, rfl⟩

end ClassFile.Holds

theorem ClassFile.Tells.length_le {α : Type} {file : ClassFile} {name : String}
    {tells : List UInt8 → α → Prop} {x : Option α} {as : List Attribute}
    (h : file.Tells name tells x as) :
  as.length ≤ 1
  := by
  cases h with
  | nothing => exact Nat.zero_le 1
  | something => exact Nat.le_refl 1

/-! ### Fields -/

/-- The entry of a constant tells its value. -/
theorem ClassFile.denotesLiteral_of_entry {file : ClassFile} {i : UInt16} {name : String}
    {literal : Literal} {e : PoolEntry} (he : constantEntry name literal = .ok e)
    (hdenotes : file.Denotes i e) :
  file.DenotesLiteral i literal
  := by
  cases literal with
  | char value =>
      obtain rfl := Except.ok.inj he
      refine ⟨_, hdenotes, ?_⟩
      have hlt := value.toNat_lt
      rw [Int32.toInt_ofNat']
      apply Int.bmod_eq_of_le
      · omega
      · change (value.toNat : Int) < (4294967296 + 1) / 2
        omega
  | byte value =>
      obtain rfl := Except.ok.inj he
      exact ⟨_, hdenotes, Int8.toInt_toInt32 value⟩
  | short value =>
      obtain rfl := Except.ok.inj he
      exact ⟨_, hdenotes, Int16.toInt_toInt32 value⟩
  | boolean _ | int _ | long _ | float _ | double _ | string _ =>
      obtain rfl := Except.ok.inj he
      exact hdenotes
  | classOf _ | null => contradiction

theorem Field.plan_eq_ok {f : Field} {p : FieldPlan} (h : f.plan = .ok p) :
  f.constantEntry? = .ok p.constant ∧ p.field = f ∧ p.descriptor = f.type.descriptor
    ∧ p.signature = if f.type.isGeneric then some f.type.signature else none
  := by
  obtain ⟨constant, hconstant, h⟩ := Except.bind_eq_ok_iff.mp h
  obtain rfl := Except.ok.inj h
  exact ⟨Except.mapError_eq_ok_iff.mp hconstant, rfl, rfl, rfl⟩

/-- A field has the entry of a constant exactly if it has a constant. -/
theorem Field.constantEntry?_eq_ok {f : Field} {e : Option PoolEntry}
    (h : f.constantEntry? = .ok e) :
  f.constant = none ∧ e = none
    ∨ ∃ literal entry, f.constant = some literal ∧ e = some entry
      ∧ constantEntry f.name literal = .ok entry
  := by
  unfold Field.constantEntry? at h
  split at h
  · next hnone =>
    left
    exact ⟨hnone, (Except.ok.inj h).symm⟩
  · next literal hsome =>
    split at h
    · obtain ⟨entry, hentry, h⟩ := Except.bind_eq_ok_iff.mp h
      right
      exact ⟨literal, entry, hsome, (Except.ok.inj h).symm, hentry⟩
    · contradiction

/-- A field is stored with an attribute for its constant and one for its signature. -/
theorem FieldPlan.info_eq_ok {p : FieldPlan} {pool : FrozenPool} {m : MemberInfo}
    (h : p.info pool = .ok m) :
  ∃ constant signature,
    (p.constant = none ∧ constant = [] ∨ ∃ e a, p.constant = some e
      ∧ pool.indexAttribute "ConstantValue" e = .ok a ∧ constant = [a])
    ∧ pool.signatureAttribute p.signature = .ok signature
    ∧ pool.member p.field.flags p.field.name p.descriptor (constant ++ signature) = .ok m
  := by
  unfold FieldPlan.info at h
  cases hconstant : p.constant with
  | none =>
      rw [hconstant] at h
      obtain ⟨_, hpure, h⟩ := Except.bind_eq_ok_iff.mp h
      obtain rfl := Except.ok.inj hpure
      obtain ⟨signature, hsignature, hm⟩ := Except.bind_eq_ok_iff.mp h
      exact ⟨[], signature, .inl ⟨rfl, rfl⟩, hsignature, hm⟩
  | some e =>
      rw [hconstant] at h
      obtain ⟨a, ha, h⟩ := Except.bind_eq_ok_iff.mp h
      obtain ⟨_, hpure, h⟩ := Except.bind_eq_ok_iff.mp h
      obtain rfl := Except.ok.inj hpure
      obtain ⟨signature, hsignature, hm⟩ := Except.bind_eq_ok_iff.mp h
      exact ⟨[a], signature, .inr ⟨e, a, rfl, ha, rfl⟩, hsignature, hm⟩

/-- The stored form of a field tells the field. -/
theorem ClassFile.Holds.tells_field {file : ClassFile} {pool : ConstantPool} (h : file.Holds pool)
    {f : Field} {p : FieldPlan} {m : MemberInfo} (hp : f.plan = .ok p)
    (hm : p.info pool.freeze = .ok m) :
  file.TellsField f m
  := by
  obtain ⟨hconstant, rfl, hdescriptor, hsignature⟩ := Field.plan_eq_ok hp
  obtain ⟨constant, signature, hstored, hsigned, hm⟩ := FieldPlan.info_eq_ok hm
  obtain ⟨hflags, hname, hdesc, hattributes, hcount⟩ := h.member_eq_ok hm
  have htellsConstant : file.Tells "ConstantValue" file.TellsLiteral p.field.constant constant := by
    rcases Field.constantEntry?_eq_ok hconstant with
      ⟨hnone, hentry⟩ | ⟨literal, e, hsome, hentry, he⟩
    · rcases hstored with ⟨-, rfl⟩ | ⟨e', a, hentry', -⟩
      · rw [hnone]
        exact .nothing
      · rw [hentry] at hentry'
        contradiction
    · rcases hstored with ⟨hentry', -⟩ | ⟨e', a, hentry', ha, rfl⟩
      · rw [hentry] at hentry'
        contradiction
      · rw [hentry] at hentry'
        obtain rfl := Option.some.inj hentry'
        obtain ⟨hname, b, hb, hdenotes⟩ := h.indexAttribute_eq_ok ha
        rw [hsome]
        exact .something hname ⟨b, hb, denotesLiteral_of_entry he hdenotes⟩
  have htellsSignature := h.tells_signature hsigned
  constructor
  case name => apply hname
  case flags => apply hflags
  case descriptor => rw [hdesc, hdescriptor]
  case attributesCount =>
    have hlength := htellsConstant.length_le
    have hlength' := htellsSignature.length_le
    rw [hcount, hattributes, toNat_ofNat_of_le]
    rw [List.length_append]
    omega
  case attributes =>
    rw [← hsignature]
    exact ⟨constant, signature, hattributes, htellsConstant, htellsSignature⟩

/-! ### Methods -/

/-- The code of a method is what the optimizer makes of the lowered body, if there is one. -/
theorem Method.planCode_eq_ok {self : Ty} {optimizer : Optimizer} {m : Method}
    {code : Option MethodCode} (h : (m.planCode self optimizer).outcome = .ok code) :
  m.body = none ∧ code = none
    ∨ ∃ body lowered, m.body = some body ∧ (m.lower self).outcome = .ok lowered
      ∧ code = some (optimizer.run lowered)
  := by
  unfold Method.planCode at h
  split at h
  · contradiction
  · contradiction
  · next hbody _ =>
    left
    exact ⟨hbody, (Except.ok.inj h).symm⟩
  · next body hbody _ =>
    right
    rw [Traced.outcome_bind] at h
    obtain ⟨lowered, hlowered, h⟩ := Except.bind_eq_ok_iff.mp h
    exact ⟨body, lowered, hbody, hlowered, (Except.ok.inj h).symm⟩

/-- What the plan of a method consists of. -/
theorem Method.plan_eq_ok {self : Ty} {optimizer : Optimizer} {m : Method} {p : MethodPlan}
    (h : (m.plan self optimizer).outcome = .ok p) :
  (m.planCode self optimizer).outcome = .ok p.code ∧ p.method = m
    ∧ p.descriptor = m.type.descriptor
    ∧ p.signature = if m.isGeneric then some (methodSignature m.typeParams m.type m.exceptions)
      else none
  := by
  rw [Method.plan, Traced.outcome_bind] at h
  obtain ⟨code, hcode, h⟩ := Except.bind_eq_ok_iff.mp h
  obtain rfl := Except.ok.inj h
  exact ⟨Except.mapError_eq_ok_iff.mp hcode, rfl, rfl, rfl⟩

/-- Lowered code has a handler for each trap. -/
theorem Method.length_handlers {self : Ty} {m : Method} {body : Body} {code : MethodCode}
    (hbody : m.body = some body) (h : (m.lower self).outcome = .ok code) :
  code.handlers.length = body.traps.length
  := by
  obtain ⟨body', locals, out, handlers, hbody', -, -, htraps, rfl⟩ :=
    Method.lowerBody_eq_ok (Method.lower_eq_ok.mp h)
  rw [hbody] at hbody'
  obtain rfl := Option.some.inj hbody'
  obtain ⟨positions, -, htraps⟩ := Except.bind_eq_ok_iff.mp htraps
  obtain ⟨_, -, htraps⟩ := Except.bind_eq_ok_iff.mp htraps
  apply (Except.mapM_eq_ok_iff.mp htraps).length_eq.symm

/-- The optimizer makes no exception table longer. -/
def Optimizer.AddsNoHandlers (optimizer : Optimizer) : Prop :=
  ∀ code, (optimizer.run code).handlers.length ≤ code.handlers.length

/-- The built-in optimizers keep the number of handlers. -/
theorem Optimizer.addsNoHandlers {optimizer : Optimizer}
    (h : optimizer = .peephole ∨ optimizer = .none) :
  optimizer.AddsNoHandlers
  := by
  intro code
  rcases h with rfl | rfl
  · apply Peephole.optimize_preserves fun code' => code'.handlers.length ≤ code.handlers.length
    · rintro _ _ ⟨site, rfl, rfl⟩ hlength
      apply Nat.le_trans (Nat.le_of_eq _) hlength
      apply List.length_map
    · apply Nat.le_refl
  · apply Nat.le_refl

/-- The handlers of a method whose traps can be counted can be counted. -/
theorem Optimizer.AddsNoHandlers.length_run_le {optimizer : Optimizer} {self : Ty} {m : Method}
    {body : Body} {lowered : MethodCode} (h : optimizer.AddsNoHandlers) (hbody : m.body = some body)
    (htraps : body.traps.length ≤ 65535) (hlowered : (m.lower self).outcome = .ok lowered) :
  (optimizer.run lowered).handlers.length ≤ 65535
  := by
  apply Nat.le_trans (h lowered)
  rw [Method.length_handlers hbody hlowered]
  apply htraps

/-- The body of assembled code says how long its lists are. -/
theorem AssembledCode.stored_body {code : MethodCode} {pool : FrozenPool} {out : AssembledCode}
    (hmade : SwitchesMade code.instructions) (hcount : code.handlers.length ≤ 65535)
    (h : (code.assemble pool).outcome = .ok out) :
  out.body.Stored
  := by
  obtain ⟨layout, hlayout, hbytes, htable, -⟩ := MethodCode.assemble_eq_ok h
  have hcovers := Layout.covers_of hlayout
  obtain ⟨hsize, -⟩ := hcovers.slice hmade hbytes
  obtain ⟨-, hentries⟩ := hcovers.exceptionTable_eq_ok htable
  have hsizeLe := hcovers.size_le
  have hlength := hentries.length_eq
  have hfilter := List.length_filter_le
    (fun h : Handler => layout.boundaries[h.start]? ≠ layout.boundaries[h.stop]?) code.handlers
  constructor
  case code =>
    apply (UInt32.toNat_ofNat_of_lt _).symm
    change out.code.length < 4294967296
    omega
  case table =>
    apply (toNat_ofNat_of_le _).symm
    change out.table.length ≤ 65535
    omega
  case attributesCount => rfl
  case attributes => nofun

theorem ClassFile.className?_zero (file : ClassFile) :
  file.className? 0 = none
  := by
  simp [className?, constant?]

theorem ClassFile.text?_zero (file : ClassFile) :
  file.text? 0 = none
  := by
  simp [text?, constant?]

namespace ClassFile.Holds

variable {file : ClassFile} {pool : ConstantPool} (h : file.Holds pool)

include h

/-- The body of the code attribute holds the assembled code. -/
theorem tells_code {code : MethodCode} {out : AssembledCode}
    (hmade : SwitchesMade code.instructions) (hcount : code.handlers.length ≤ 65535)
    (hout : (code.assemble pool.freeze).outcome = .ok out) :
  file.TellsCode code out.body.toBytes pool.freeze out
  := by
  obtain ⟨layout, hlayout, hbytes, htable, hoffsets⟩ := MethodCode.assemble_eq_ok hout
  obtain ⟨-, hentries⟩ := (Layout.covers_of hlayout).exceptionTable_eq_ok htable
  constructor
  case assembled => apply hout
  case body =>
    apply CodeBody.fromBytes_eq_ok_iff.mpr ⟨AssembledCode.stored_body hmade hcount hout, rfl⟩
  case operands =>
    intro k start i e hk hstart he
    obtain ⟨index, before, bytes, after, hindex, happend, hbefore, hoperand⟩ :=
      MethodCode.hasOperand_of_assemble hmade hout hk hstart he
    exact ⟨index, before, bytes, after, happend, hbefore, hoperand, h.denotes hindex⟩
  case catches =>
    rw [hoffsets]
    apply hentries.imp
    intro handler entry hdescribes
    have hclass : ∀ t ∈ handler.catchType, file.className? entry.catchType = some t.entryName := by
      intro t ht
      have hindex : pool.freeze.indexOf (.ofClass t) = .ok entry.catchType :=
        ConstantPool.indexOf_freeze.mpr (hdescribes.catchType t ht)
      apply h.denotes hindex
    refine ⟨⟨?_, hdescribes.catchAll⟩, hclass⟩
    intro hzero
    cases htype : handler.catchType with
    | none => rfl
    | some t =>
        have hname := hclass t htype
        rw [hzero, className?_zero] at hname
        contradiction

/-- The attribute for code tells what the optimizer makes of the lowered body, and there is none
without a body. -/
theorem tells_codeAttribute {self : Ty} {optimizer : Optimizer} {p : MethodPlan}
    {as : List Attribute} (hhandlers : optimizer.AddsNoHandlers)
    (hswitches : optimizer.KeepsSwitchesMade)
    (htraps : ∀ body ∈ p.method.body, body.traps.length ≤ 65535)
    (hmoderate : ∀ body ∈ p.method.body, body.SwitchesModerate)
    (hplan : (p.method.planCode self optimizer).outcome = .ok p.code)
    (has : (p.codeAttribute pool.freeze).outcome = .ok as) :
  file.Tells "Code" (fun info _ => ∃ lowered pool out, (p.method.lower self).outcome = .ok lowered
    ∧ file.TellsCode (optimizer.run lowered) info pool out) p.method.body as
  := by
  unfold MethodPlan.codeAttribute at has
  rcases Method.planCode_eq_ok hplan with ⟨hbody, hcode⟩ | ⟨body, lowered, hbody, hlowered, hcode⟩
  · rw [hcode] at has
    obtain rfl := Except.ok.inj has
    rw [hbody]
    exact .nothing
  · rw [hcode] at has
    dsimp only at has
    rw [Traced.outcome_bind] at has
    obtain ⟨out, hout, has⟩ := Except.bind_eq_ok_iff.mp has
    rw [Traced.outcome_bind] at has
    obtain ⟨a, ha, has⟩ := Except.bind_eq_ok_iff.mp has
    obtain rfl := Except.ok.inj has
    obtain ⟨hname, hinfo⟩ := h.attributeOf_eq_ok ha
    have hcount := hhandlers.length_run_le hbody (htraps body hbody) hlowered
    have hmade := hswitches lowered
      (Method.switchesMade_of_lower hbody (hmoderate body hbody) hlowered)
    rw [hbody]
    apply Tells.something hname
    rw [hinfo]
    exact ⟨lowered, pool.freeze, out, hlowered, h.tells_code hmade hcount hout⟩

/-- Classes that are looked up one by one have their names at the indices. -/
theorem map_className? {α : Type} {type : α → Ty} {g : PoolError → CompileError} {xs : List α}
    {classes : List UInt16}
    (hclasses : xs.mapM (fun x => (pool.freeze.classIndex (type x)).mapError g) = .ok classes) :
  classes.map file.className? = xs.map fun x => some (type x).entryName
  := by
  have hforall := Except.mapM_eq_ok_iff.mp hclasses
  clear hclasses
  induction hforall with
  | nil => rfl
  | cons hindex _ ih =>
      rw [List.map_cons, List.map_cons, ih]
      congr 1
      apply h.denotes_of_mapError hindex

/-- The attribute for thrown classes tells all of them, and there is none without such classes. -/
theorem tells_exceptions {p : MethodPlan} {as : List Attribute}
    (hcount : p.method.exceptions.length ≤ 65535)
    (has : p.exceptionsAttribute pool.freeze = .ok as) :
  file.Tells "Exceptions" file.TellsClasses
    (if p.method.exceptions.isEmpty then none else some p.method.exceptions) as
  := by
  unfold MethodPlan.exceptionsAttribute at has
  split at has
  · next hempty =>
    obtain rfl := Except.ok.inj has
    rw [if_pos hempty]
    exact .nothing
  · next hnonempty =>
    obtain ⟨classes, hclasses, has⟩ := Except.bind_eq_ok_iff.mp has
    obtain ⟨a, ha, has⟩ := Except.bind_eq_ok_iff.mp has
    obtain rfl := Except.ok.inj has
    obtain ⟨hname, hinfo⟩ := h.attributeOf_eq_ok ha
    have hlength := (Except.mapM_eq_ok_iff.mp hclasses).length_eq
    rw [if_neg hnonempty]
    apply Tells.something hname
    refine ⟨_, ExceptionsBody.fromBytes_eq_ok_iff.mpr ⟨?_, hinfo.symm⟩, h.map_className? hclasses⟩
    apply (toNat_ofNat_of_le _).symm
    rw [← hlength]
    apply hcount

/-- The stored form of a method tells the method. -/
theorem tells_method {self : Ty} {optimizer : Optimizer} {method : Method} {p : MethodPlan}
    {m : MemberInfo} (hhandlers : optimizer.AddsNoHandlers)
    (hswitches : optimizer.KeepsSwitchesMade)
    (htraps : ∀ body ∈ method.body, body.traps.length ≤ 65535)
    (hmoderate : ∀ body ∈ method.body, body.SwitchesModerate)
    (hexceptions : method.exceptions.length ≤ 65535)
    (hp : (method.plan self optimizer).outcome = .ok p)
    (hm : (p.info pool.freeze).outcome = .ok m) :
  file.TellsMethod self optimizer method m
  := by
  obtain ⟨hplan, rfl, hdescriptor, hsignature⟩ := Method.plan_eq_ok hp
  have hm := Except.mapError_eq_ok_iff.mp hm
  rw [MethodPlan.infoWithin, Traced.outcome_bind] at hm
  obtain ⟨code, hcode, hm⟩ := Except.bind_eq_ok_iff.mp hm
  rw [Traced.outcome_bind] at hm
  obtain ⟨exceptions, hthrown, hm⟩ := Except.bind_eq_ok_iff.mp hm
  rw [Traced.outcome_bind] at hm
  obtain ⟨signature, hsigned, hm⟩ := Except.bind_eq_ok_iff.mp hm
  obtain ⟨hflags, hname, hdesc, hattributes, hcount⟩ := h.member_eq_ok hm
  have htellsCode := h.tells_codeAttribute hhandlers hswitches htraps hmoderate hplan hcode
  have htellsExceptions := h.tells_exceptions hexceptions hthrown
  have htellsSignature := h.tells_signature hsigned
  constructor
  case name => apply hname
  case flags => apply hflags
  case descriptor => rw [hdesc, hdescriptor]
  case attributesCount =>
    have hlength := htellsCode.length_le
    have hlength' := htellsExceptions.length_le
    have hlength'' := htellsSignature.length_le
    rw [hcount, hattributes, toNat_ofNat_of_le]
    rw [List.length_append, List.length_append]
    omega
  case attributes =>
    rw [← hsignature]
    exact ⟨code, exceptions, signature, hattributes, htellsCode, htellsExceptions, htellsSignature⟩

end ClassFile.Holds

end ClassForge
