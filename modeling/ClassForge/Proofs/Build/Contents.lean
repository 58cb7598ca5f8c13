import ClassForge.Proofs.Assembly.Operands
import ClassForge.Proofs.Pool.Records
import ClassForge.Proofs.Reading.Attribute

/-!
# What a class file says

A class file says what a class says if each part of the class is read back from it: names and
descriptors through the constant pool, and what is optional from an attribute that is there
exactly if it is needed. Whatever index it has for this is one of the pool, with a record that
fits.
-/

namespace ClassForge

/-! ### References into the pool -/

namespace Record

/-- Whether the record is a text. -/
def isText : Record → Bool
  | .utf8 .. => true
  | _ => false

/-- Whether the record is that of a class. -/
def isClass : Record → Bool
  | .classRef _ => true
  | _ => false

/-- Whether the record is a name with a descriptor. -/
def isNameAndType : Record → Bool
  | .nameAndType .. => true
  | _ => false

/-- Whether the record can be the constant of a field. -/
def isLiteral : Record → Bool
  | .integer _ | .float _ | .long _ | .double _ | .string _ => true
  | _ => false

end Record

/-- The index is one of the pool, with a record of the given kind. -/
def ClassFile.Refers (file : ClassFile) (kind : Record → Bool) (i : UInt16) : Prop :=
  i.toNat < file.constPoolSize.toNat ∧ ∃ r, file.constant? i = some r ∧ kind r = true

/-- The record refers to records of the kinds that it needs. -/
def Record.Linked (file : ClassFile) : Record → Prop
  | .classRef i | .string i => file.Refers isText i
  | .nameAndType i j => file.Refers isText i ∧ file.Refers isText j
  | .fieldRef i j | .methodRef i j | .interfaceMethodRef i j =>
    file.Refers isClass i ∧ file.Refers isNameAndType j
  | .utf8 .. | .integer _ | .float _ | .long _ | .double _ | .unusable => True

/-- The body of an attribute with the given name refers to records of the kinds that it needs. -/
structure BodyLinked (file : ClassFile) (name : String) (info : List UInt8) : Prop where
  constant : name = "ConstantValue" → ∀ b, IndexBody.fromBytes info = .ok b →
    file.Refers Record.isLiteral b.index
  text : name = "Signature" ∨ name = "SourceFile" → ∀ b, IndexBody.fromBytes info = .ok b →
    file.Refers Record.isText b.index
  exceptions : name = "Exceptions" → ∀ b, ExceptionsBody.fromBytes info = .ok b →
    ∀ i ∈ b.classes, file.Refers Record.isClass i
  inner : name = "InnerClasses" → ∀ b, InnerClassesBody.fromBytes info = .ok b →
    ∀ e ∈ b.classes, file.Refers Record.isClass e.inner
      ∧ (e.outer ≠ 0 → file.Refers Record.isClass e.outer)
      ∧ (e.name ≠ 0 → file.Refers Record.isText e.name)
  code : name = "Code" → ∀ b, CodeBody.fromBytes info = .ok b →
    ∀ e ∈ b.table, e.catchType ≠ 0 → file.Refers Record.isClass e.catchType

/-- The attribute refers to its name, and its body to records of the kinds that it needs. -/
structure Attribute.Linked (file : ClassFile) (a : Attribute) : Prop where
  name : file.Refers Record.isText a.name
  body : ∀ name, file.text? a.name = some name → BodyLinked file name a.info

/-- The member refers to its name and descriptor, and its attributes to what they need. -/
structure MemberInfo.Linked (file : ClassFile) (m : MemberInfo) : Prop where
  name : file.Refers Record.isText m.name
  descriptor : file.Refers Record.isText m.descriptor
  attributes : ∀ a ∈ m.attributes, a.Linked file

/-- Every index of the class file other than zero is one of the pool, with a record of the kind
that is needed there. -/
structure ClassFile.Linked (file : ClassFile) : Prop where
  records : ∀ r ∈ file.constPool, r.Linked file
  thisClass : file.Refers Record.isClass file.thisClass
  superClass : file.superClass ≠ 0 → file.Refers Record.isClass file.superClass
  interfaces : ∀ i ∈ file.interfaces, file.Refers Record.isClass i
  fields : ∀ m ∈ file.fields, m.Linked file
  methods : ∀ m ∈ file.methods, m.Linked file
  attributes : ∀ a ∈ file.attributes, a.Linked file

/-! ### What is told -/

namespace ClassFile

variable (file : ClassFile)

/-- If there is something to tell, then one attribute with the name tells it; otherwise there is
no attribute. -/
inductive Tells {α : Type} (name : String) (tells : List UInt8 → α → Prop) :
    Option α → List Attribute → Prop
  | nothing : Tells name tells none []
  | something {x : α} {a : Attribute} : file.text? a.name = some name → tells a.info x →
    Tells name tells (some x) [a]

/-- The body has the index of the text. -/
def TellsText (info : List UInt8) (text : String) : Prop :=
  ∃ b, IndexBody.fromBytes info = .ok b ∧ file.text? b.index = some text

/-- The record at the index has the value of the literal. -/
def DenotesLiteral (i : UInt16) : Literal → Prop
  | .boolean value => file.constant? i = some (.integer (if value then 1 else 0))
  | .char value => ∃ n, file.constant? i = some (.integer n) ∧ n.toInt = value.toNat
  | .byte value => ∃ n, file.constant? i = some (.integer n) ∧ n.toInt = value.toInt
  | .short value => ∃ n, file.constant? i = some (.integer n) ∧ n.toInt = value.toInt
  | .int value => file.constant? i = some (.integer value)
  | .long value => file.constant? i = some (.long value)
  | .float bits => file.constant? i = some (.float bits)
  | .double bits => file.constant? i = some (.double bits)
  | .string text => ∃ j, file.constant? i = some (.string j) ∧ file.text? j = some text
  | .classOf _ | .null => False

/-- The body has the index of the literal. -/
def TellsLiteral (info : List UInt8) (literal : Literal) : Prop :=
  ∃ b, IndexBody.fromBytes info = .ok b ∧ file.DenotesLiteral b.index literal

/-- The body lists the classes of the erased types, in their order. -/
def TellsClasses (info : List UInt8) (types : List Ty) : Prop :=
  ∃ b, ExceptionsBody.fromBytes info = .ok b
    ∧ b.classes.map file.className? = types.map fun t => some t.erasure.entryName

/-- The index is that of a class, zero exactly if there is none. -/
structure TellsClass (i : UInt16) (c : Option ClassType) : Prop where
  zero : i = 0 ↔ c = none
  name : ∀ t ∈ c, file.className? i = some t.name.internal

/-- The entry is that of the nested class. -/
structure TellsInner (c : InnerClass) (e : InnerClassEntry) : Prop where
  inner : file.className? e.inner = some c.inner.name.internal
  outer : file.TellsClass e.outer c.outer
  noName : e.name = 0 ↔ c.simpleName = none
  name : ∀ name ∈ c.simpleName, file.text? e.name = some name
  flags : e.flags = c.flags

/-- The body has the entries of the nested classes, in their order. -/
def TellsInners (info : List UInt8) (inners : List InnerClass) : Prop :=
  ∃ b, InnerClassesBody.fromBytes info = .ok b ∧ List.Forall₂ file.TellsInner inners b.classes

/-- The body holds the code, assembled with the indices of the class file. -/
structure TellsCode (code : MethodCode) (info : List UInt8) (pool : FrozenPool)
    (out : AssembledCode) : Prop where
  assembled : (code.assemble pool).outcome = .ok out
  body : CodeBody.fromBytes info = .ok out.body
  /-- An instruction has the index of the entry that it refers to. -/
  operands : ∀ {k start : Nat} {i : Instruction} {e : PoolEntry},
    code.instructions[k]? = some i → out.offsets[k]? = some start → i.operand? = some e →
    ∃ index before bytes after, out.code = before ++ bytes ++ after ∧ before.length = start
      ∧ HasOperand bytes index ∧ file.Denotes index e
  /-- What is caught has the index of its class, and no other index is zero. -/
  catches : List.Forall₂
    (fun h entry => (entry.catchType = 0 ↔ h.catchType = none)
      ∧ ∀ t ∈ h.catchType, file.className? entry.catchType = some t.entryName)
    (code.handlers.filter fun h => out.offsets[h.start]? ≠ out.offsets[h.stop]?) out.table

/-- The member is the field. -/
structure TellsField (f : Field) (m : MemberInfo) : Prop where
  name : file.text? m.name = some f.name
  flags : m.flags = f.flags
  descriptor : file.text? m.descriptor = some f.type.descriptor
  attributesCount : m.attributesCount.toNat = m.attributes.length
  attributes : ∃ constant signature, m.attributes = constant ++ signature
    ∧ file.Tells "ConstantValue" file.TellsLiteral f.constant constant
    ∧ file.Tells "Signature" file.TellsText
      (if f.type.isGeneric then some f.type.signature else none) signature

/-- The member is the method of the class `owner`. -/
structure TellsMethod (owner : Ty) (optimizer : Optimizer) (method : Method) (m : MemberInfo) :
    Prop where
  name : file.text? m.name = some method.name
  flags : m.flags = method.flags
  descriptor : file.text? m.descriptor = some method.type.descriptor
  attributesCount : m.attributesCount.toNat = m.attributes.length
  attributes : ∃ code exceptions signature, m.attributes = code ++ exceptions ++ signature
    ∧ file.Tells "Code" (fun info _ => ∃ lowered pool out,
        (method.lower owner).outcome = .ok lowered
          ∧ file.TellsCode (optimizer.run lowered) info pool out) method.body code
    ∧ file.Tells "Exceptions" file.TellsClasses
      (if method.exceptions.isEmpty then none else some method.exceptions) exceptions
    ∧ file.Tells "Signature" file.TellsText
      (if method.isGeneric then
        some (methodSignature method.typeParams method.type method.exceptions)
      else none) signature

/-- The class file says what the class says. -/
structure TellsModel (c : ClassModel) (version : ClassVersion) (optimizer : Optimizer) : Prop where
  version : file.major = version.major ∧ file.minor = version.minor
  flags : file.flags = c.flags
  thisClass : file.className? file.thisClass = some c.type.name.internal
  superClass : file.TellsClass file.superClass c.superclass
  interfaces : file.interfaces.map file.className? = c.interfaces.map fun t => some t.name.internal
  fields : List.Forall₂ file.TellsField c.fields file.fields
  methods : List.Forall₂ (file.TellsMethod c.type.toTy optimizer) c.methods file.methods
  attributes : ∃ signature inner source, file.attributes = signature ++ inner ++ source
    ∧ file.Tells "Signature" file.TellsText
      (if c.isGeneric then
        some (classSignature c.typeParams (c.superclass.getD .object) c.interfaces)
      else none) signature
    ∧ file.Tells "InnerClasses" file.TellsInners
      (if c.innerClasses.isEmpty then none else some c.innerClasses) inner
    ∧ file.Tells "SourceFile" file.TellsText c.sourceFile source
  interfacesCount : file.interfacesCount.toNat = file.interfaces.length
  fieldsCount : file.fieldsCount.toNat = file.fields.length
  methodsCount : file.methodsCount.toNat = file.methods.length
  attributesCount : file.attributesCount.toNat = file.attributes.length

/-! ### What is told is linked -/

namespace Holds

variable {file} {pool : ConstantPool} (h : file.Holds pool) {i : UInt16}

include h

theorem refers_text {text : String} (ht : file.text? i = some text) :
  file.Refers Record.isText i
  := by
  rw [text?] at ht
  split at ht
  · next hr => exact ⟨h.lt_of_constant? hr, _, hr, rfl⟩
  · contradiction

theorem refers_class {name : String} (hname : file.className? i = some name) :
  file.Refers Record.isClass i
  := by
  rw [className?] at hname
  split at hname
  · next hr => exact ⟨h.lt_of_constant? hr, _, hr, rfl⟩
  · contradiction

theorem refers_nameAndType {name descriptor : String}
    (hdenotes : file.DenotesNameAndType i name descriptor) :
  file.Refers Record.isNameAndType i
  := by
  obtain ⟨j, k, hr, -⟩ := hdenotes
  exact ⟨h.lt_of_constant? hr, _, hr, rfl⟩

/-- The index of a literal is that of a literal among the records. -/
theorem refers_literal {literal : Literal} (hdenotes : file.DenotesLiteral i literal) :
  file.Refers Record.isLiteral i
  := by
  have hrefers {r : Record} (hr : file.constant? i = some r) (hliteral : r.isLiteral = true) :
      file.Refers Record.isLiteral i := ⟨h.lt_of_constant? hr, r, hr, hliteral⟩
  cases literal with
  | boolean _ | int _ | long _ | float _ | double _ => exact hrefers hdenotes rfl
  | char _ | byte _ | short _ | string _ =>
      obtain ⟨_, hr, -⟩ := hdenotes
      exact hrefers hr rfl
  | classOf _ | null => contradiction

theorem refers_tellsClass {c : Option ClassType} (htells : file.TellsClass i c) (hne : i ≠ 0) :
  file.Refers Record.isClass i
  := by
  cases c with
  | none => exact absurd (htells.zero.mpr rfl) hne
  | some t => apply h.refers_class (htells.name t rfl)

/-- The record of an entry refers to records of the kinds that it has to. -/
theorem linked_record {e : PoolEntry} {r : Record} (hrecord : pool.freeze.record e = .ok r) :
  r.Linked file
  := by
  have htext {text : String} {j : UInt16} (hj : pool.freeze.textIndex text = .ok j) :
      file.Refers Record.isText j := h.refers_text (h.denotes hj)
  have hmember {m : MemberRef} {indices : UInt16 × UInt16}
      (hindices : pool.freeze.memberIndices m = .ok indices) :
      file.Refers Record.isClass indices.1 ∧ file.Refers Record.isNameAndType indices.2 := by
    obtain ⟨owner, howner, hindices⟩ := Except.bind_eq_ok_iff.mp hindices
    obtain ⟨member, hmember, hindices⟩ := Except.bind_eq_ok_iff.mp hindices
    obtain rfl := Except.ok.inj hindices
    exact ⟨h.refers_class (h.denotes howner), h.refers_nameAndType (h.denotes hmember)⟩
  cases e with
  | utf8 text =>
      rw [FrozenPool.record, Record.ofText] at hrecord
      split at hrecord
      · obtain rfl := Except.ok.inj hrecord
        trivial
      · contradiction
  | integer _ | float _ | long _ | double _ =>
      obtain rfl := Except.ok.inj hrecord
      trivial
  | string _ | classRef _ =>
      obtain ⟨j, hj, hrecord⟩ := Except.bind_eq_ok_iff.mp hrecord
      obtain rfl := Except.ok.inj hrecord
      exact htext hj
  | nameAndType _ _ =>
      obtain ⟨j, hj, hrecord⟩ := Except.bind_eq_ok_iff.mp hrecord
      obtain ⟨k, hk, hrecord⟩ := Except.bind_eq_ok_iff.mp hrecord
      obtain rfl := Except.ok.inj hrecord
      exact ⟨htext hj, htext hk⟩
  | fieldRef _ | methodRef _ | interfaceMethodRef _ =>
      obtain ⟨indices, hindices, hrecord⟩ := Except.bind_eq_ok_iff.mp hrecord
      obtain rfl := Except.ok.inj hrecord
      exact hmember hindices

/-- Every record of the pool is linked. -/
theorem linked_records :
  ∀ r ∈ file.constPool, r.Linked file
  := by
  intro r hr
  obtain ⟨records, hrecords, hall⟩ := h.exists_records
  rw [← Array.mem_toList_iff, ← hall] at hr
  obtain ⟨r', hr', hr⟩ := List.mem_flatMap.mp hr
  obtain ⟨entry, -, hrecord⟩ := hrecords.exists_of_mem_right hr'
  rw [Record.withFiller] at hr
  have hcases : r = r' ∨ r = .unusable := by
    split at hr <;> simp_all
  rcases hcases with rfl | rfl
  · apply h.linked_record hrecord
  · trivial

/-- Attributes that tell something are linked if their bodies are. -/
theorem linked_of_tells {α : Type} {name : String} {tells : List UInt8 → α → Prop} {x : Option α}
    {attributes : List Attribute} (htells : file.Tells name tells x attributes)
    (hbody : ∀ x info, tells info x → BodyLinked file name info) :
  ∀ a ∈ attributes, a.Linked file
  := by
  cases htells with
  | nothing => nofun
  | @something x a hname hinfo =>
      intro a' ha'
      obtain rfl := List.mem_singleton.mp ha'
      use h.refers_text hname
      intro name' hname'
      rw [hname] at hname'
      obtain rfl := Option.some.inj hname'
      apply hbody x _ hinfo

/-- A body that tells a text refers to one. -/
theorem bodyLinked_text {name text : String} {info : List UInt8}
    (hname : name = "Signature" ∨ name = "SourceFile") (htells : file.TellsText info text) :
  BodyLinked file name info
  := by
  obtain ⟨b, hb, htext⟩ := htells
  constructor
  case text =>
    intro _ b' hb'
    obtain rfl := Except.ok.inj (hb.symm.trans hb')
    apply h.refers_text htext
  all_goals
    rcases hname with rfl | rfl <;> simp

/-- A body that tells a literal refers to one. -/
theorem bodyLinked_literal {literal : Literal} {info : List UInt8}
    (htells : file.TellsLiteral info literal) :
  BodyLinked file "ConstantValue" info
  := by
  obtain ⟨b, hb, hliteral⟩ := htells
  constructor
  case constant =>
    intro _ b' hb'
    obtain rfl := Except.ok.inj (hb.symm.trans hb')
    apply h.refers_literal hliteral
  all_goals simp

/-- A body that tells thrown classes refers to classes. -/
theorem bodyLinked_classes {types : List Ty} {info : List UInt8}
    (htells : file.TellsClasses info types) :
  BodyLinked file "Exceptions" info
  := by
  obtain ⟨b, hb, hclasses⟩ := htells
  constructor
  case exceptions =>
    intro _ b' hb' i hi
    obtain rfl := Except.ok.inj (hb.symm.trans hb')
    have hmem : file.className? i ∈ types.map fun t => some t.erasure.entryName := by
      rw [← hclasses]
      apply List.mem_map_of_mem hi
    obtain ⟨t, -, ht⟩ := List.mem_map.mp hmem
    apply h.refers_class ht.symm
  all_goals simp

/-- A body that tells nested classes refers to classes and to a text for the name. -/
theorem bodyLinked_inners {inners : List InnerClass} {info : List UInt8}
    (htells : file.TellsInners info inners) :
  BodyLinked file "InnerClasses" info
  := by
  obtain ⟨b, hb, hinners⟩ := htells
  constructor
  case inner =>
    intro _ b' hb' e he
    obtain rfl := Except.ok.inj (hb.symm.trans hb')
    obtain ⟨c, -, htells⟩ := hinners.exists_of_mem_right he
    use h.refers_class htells.inner, h.refers_tellsClass htells.outer
    intro hne
    cases hname : c.simpleName with
    | none => exact absurd (htells.noName.mpr hname) hne
    | some name => apply h.refers_text (htells.name name hname)
  all_goals simp

/-- The body of code that tells its handlers refers to the classes that they catch. -/
theorem bodyLinked_code {code : MethodCode} {info : List UInt8} {frozen : FrozenPool}
    {out : AssembledCode} (htells : file.TellsCode code info frozen out) :
  BodyLinked file "Code" info
  := by
  constructor
  case code =>
    intro _ b hb e he hne
    obtain rfl := Except.ok.inj (htells.body.symm.trans hb)
    obtain ⟨handler, -, hzero, hclass⟩ := htells.catches.exists_of_mem_right he
    cases htype : handler.catchType with
    | none => exact absurd (hzero.mpr htype) hne
    | some t => apply h.refers_class (hclass t htype)
  all_goals simp

/-- A field that tells its model refers to records of the kinds that it has to. -/
theorem linked_field {f : Field} {m : MemberInfo} (htells : file.TellsField f m) :
  m.Linked file
  := by
  use h.refers_text htells.name, h.refers_text htells.descriptor
  obtain ⟨constant, signature, hattributes, hconstant, hsignature⟩ := htells.attributes
  rw [hattributes, List.forall_mem_append]
  constructor
  · apply h.linked_of_tells hconstant fun _ _ => h.bodyLinked_literal
  · apply h.linked_of_tells hsignature fun _ _ => h.bodyLinked_text (.inl rfl)

/-- A method that tells its model refers to records of the kinds that it has to. -/
theorem linked_method {owner : Ty} {optimizer : Optimizer} {method : Method} {m : MemberInfo}
    (htells : file.TellsMethod owner optimizer method m) :
  m.Linked file
  := by
  use h.refers_text htells.name, h.refers_text htells.descriptor
  obtain ⟨code, exceptions, signature, hattributes, hcode, hexceptions, hsignature⟩ :=
    htells.attributes
  rw [hattributes, List.forall_mem_append, List.forall_mem_append]
  refine ⟨⟨?_, ?_⟩, ?_⟩
  · apply h.linked_of_tells hcode
    rintro _ info ⟨_, _, _, -, htells⟩
    apply h.bodyLinked_code htells
  · apply h.linked_of_tells hexceptions fun _ _ => h.bodyLinked_classes
  · apply h.linked_of_tells hsignature fun _ _ => h.bodyLinked_text (.inl rfl)

/-- A class file that says what a class says is linked. -/
theorem linked {c : ClassModel} {version : ClassVersion} {optimizer : Optimizer}
    (htells : file.TellsModel c version optimizer) :
  file.Linked
  := by
  constructor
  case records => apply h.linked_records
  case thisClass => apply h.refers_class htells.thisClass
  case superClass => apply h.refers_tellsClass htells.superClass
  case interfaces =>
    intro i hi
    have hmem : file.className? i ∈ c.interfaces.map fun t => some t.name.internal := by
      rw [← htells.interfaces]
      apply List.mem_map_of_mem hi
    obtain ⟨t, -, ht⟩ := List.mem_map.mp hmem
    apply h.refers_class ht.symm
  case fields =>
    intro m hm
    obtain ⟨f, -, hf⟩ := htells.fields.exists_of_mem_right hm
    apply h.linked_field hf
  case methods =>
    intro m hm
    obtain ⟨method, -, hmethod⟩ := htells.methods.exists_of_mem_right hm
    apply h.linked_method hmethod
  case attributes =>
    obtain ⟨signature, inner, source, hattributes, hsignature, hinner, hsource⟩ :=
      htells.attributes
    rw [hattributes, List.forall_mem_append, List.forall_mem_append]
    refine ⟨⟨?_, ?_⟩, ?_⟩
    · apply h.linked_of_tells hsignature fun _ _ => h.bodyLinked_text (.inl rfl)
    · apply h.linked_of_tells hinner fun _ _ => h.bodyLinked_inners
    · apply h.linked_of_tells hsource fun _ _ => h.bodyLinked_text (.inr rfl)

end Holds

end ClassFile

end ClassForge
