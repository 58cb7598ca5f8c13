import ClassForge.Build.Plan
import ClassForge.Method.Assemble
import ClassForge.Record.ClassFile

/-!
# From class to class file

Every member is planned first. Then the entries that the class needs are interned, in the
order in which the class mentions them, and the pool is frozen. Only then are method bodies
assembled and members and attributes written with their final indices.
-/

namespace ClassForge

/-- The version of the class file format. -/
structure ClassVersion where
  major : UInt16 := 49
  minor : UInt16 := 0
  deriving DecidableEq, Repr

/-- A class with its members planned. -/
structure ClassPlan where
  model : ClassModel
  fields : List FieldPlan
  methods : List MethodPlan
  signature : Option String

/-- The signature of a class that needs one. -/
def ClassModel.signature? (c : ClassModel) : Option String :=
  if c.isGeneric then
    some (classSignature c.typeParams (c.superclass.getD .object) c.interfaces)
  else none

/-- The plan of a class. -/
def ClassModel.plan (c : ClassModel) (optimizer : Optimizer) : Traced CompileError ClassPlan := do
  let fields ← (c.fields.mapM Field.plan : Except CompileError (List FieldPlan))
  let methods ← c.methods.mapM (Method.plan c.type.toTy optimizer)
  return ⟨c, fields, methods, c.signature?⟩

/-! ### The pool of a class -/

/-- The class entry of a class type. -/
def ClassType.entry (c : ClassType) : PoolEntry :=
  .ofClass c.erasure.toTy

/-- The entries of a nested class. -/
def InnerClass.needs (c : InnerClass) : List PoolEntry :=
  c.inner.entry :: (c.outer.map ClassType.entry).toList
    ++ (c.simpleName.map PoolEntry.utf8).toList

namespace ClassPlan

/-- The entries of the class itself. -/
def headNeeds (p : ClassPlan) : List PoolEntry :=
  [p.model.type.entry] ++ (p.model.superclass.map ClassType.entry).toList
    ++ p.model.interfaces.map ClassType.entry ++ signatureNeeds p.signature

/-- The entries of nested classes. -/
def innerNeeds (p : ClassPlan) : List PoolEntry :=
  if p.model.innerClasses.isEmpty then []
  else .utf8 "InnerClasses" :: p.model.innerClasses.flatMap InnerClass.needs

/-- The entries of the source file. -/
def sourceNeeds (p : ClassPlan) : List PoolEntry :=
  match p.model.sourceFile with
  | none => []
  | some source => [.utf8 "SourceFile", .utf8 source]

/-- Interns entries; `blame` tells where they are needed. -/
def internFor (blame : CompileError → CompileError) (entries : List PoolEntry) :
    EStateM CompileError ConstantPool Unit :=
  EStateM.adaptExcept (fun e => blame (.pool e)) (ConstantPool.internAll entries)

/-- Interns every entry that the class needs. -/
def internNeeds (p : ClassPlan) : EStateM CompileError ConstantPool Unit := do
  internFor id p.headNeeds
  p.fields.forM fun field => internFor id field.needs
  p.methods.forM fun method => internFor method.method.blame method.needs
  internFor id p.innerNeeds
  internFor id p.sourceNeeds

/-- The pool of a class. -/
def pool (p : ClassPlan) : Traced CompileError FrozenPool :=
  match p.internNeeds .empty with
  | .ok _ pool => ⟨pool.events, .ok pool.freeze⟩
  | .error e pool => ⟨pool.events, .error e⟩

end ClassPlan

/-! ### Attributes and members -/

namespace FrozenPool

/-- The attribute with the given name and body. -/
def attributeOf (pool : FrozenPool) (name : String) (info : List UInt8) :
    Except CompileError Attribute := do
  return .ofInfo (← (pool.textIndex name).mapError .pool) info

/-- The attribute that holds the index of an entry. -/
def indexAttribute (pool : FrozenPool) (name : String) (entry : PoolEntry) :
    Except CompileError Attribute := do
  let index ← (pool.indexOf entry).mapError .pool
  pool.attributeOf name (IndexBody.toBytes ⟨index⟩)

/-- The signature attribute, if there is a signature. -/
def signatureAttribute (pool : FrozenPool) (signature : Option String) :
    Except CompileError (List Attribute) :=
  match signature with
  | none => return []
  | some signature => return [← pool.indexAttribute "Signature" (.utf8 signature)]

/-- The member with the given texts and attributes. -/
def member (pool : FrozenPool) (flags : UInt16) (name descriptor : String)
    (attributes : List Attribute) : Except CompileError MemberInfo := do
  let nameIndex ← (pool.textIndex name).mapError .pool
  let descriptorIndex ← (pool.textIndex descriptor).mapError .pool
  return ⟨flags, nameIndex, descriptorIndex, UInt16.ofNat attributes.length, attributes⟩

end FrozenPool

/-- The stored form of a field. -/
def FieldPlan.info (p : FieldPlan) (pool : FrozenPool) : Except CompileError MemberInfo := do
  let constant ← match p.constant with
    | none => pure []
    | some constant => pure [← pool.indexAttribute "ConstantValue" constant]
  let signature ← pool.signatureAttribute p.signature
  pool.member p.field.flags p.field.name p.descriptor (constant ++ signature)

/-- The body of the `Code` attribute for assembled code. -/
def AssembledCode.body (a : AssembledCode) : CodeBody where
  maxStack := UInt16.ofNat a.maxStack
  maxLocals := UInt16.ofNat a.maxLocals
  codeLength := UInt32.ofNat a.code.length
  code := a.code
  tableLength := UInt16.ofNat a.table.length
  table := a.table
  attributesCount := 0
  attributes := []

namespace MethodPlan

/-- The `Code` attribute of a method with code. -/
def codeAttribute (p : MethodPlan) (pool : FrozenPool) : Traced CompileError (List Attribute) :=
  match p.code with
  | none => return []
  | some code => do
    let assembled ← code.assemble pool
    let body ← pool.attributeOf "Code" assembled.body.toBytes
    return [body]

/-- The `Exceptions` attribute of a method that declares to throw. -/
def exceptionsAttribute (p : MethodPlan) (pool : FrozenPool) :
    Except CompileError (List Attribute) := do
  if p.method.exceptions.isEmpty then
    return []
  else
    let classes ← p.method.exceptions.mapM fun thrown =>
      (pool.classIndex thrown.erasure).mapError .pool
    let body : ExceptionsBody := ⟨UInt16.ofNat classes.length, classes⟩
    return [← pool.attributeOf "Exceptions" body.toBytes]

/-- The stored form of a method, without telling where an error happened. -/
def infoWithin (p : MethodPlan) (pool : FrozenPool) : Traced CompileError MemberInfo := do
  let code ← p.codeAttribute pool
  let exceptions ← p.exceptionsAttribute pool
  let signature ← pool.signatureAttribute p.signature
  pool.member p.method.flags p.method.name p.descriptor (code ++ exceptions ++ signature)

/-- The stored form of a method. -/
def info (p : MethodPlan) (pool : FrozenPool) : Traced CompileError MemberInfo :=
  (p.infoWithin pool).mapError p.method.blame

end MethodPlan

/-- The class index of a class type. -/
def ClassType.index (c : ClassType) (pool : FrozenPool) : Except CompileError UInt16 :=
  (pool.indexOf c.entry).mapError .pool

/-- The class index of a class type, zero where there is none. -/
def classIndexOrZero (pool : FrozenPool) : Option ClassType → Except CompileError UInt16
  | none => return 0
  | some c => c.index pool

/-- The stored form of a nested class. -/
def InnerClass.stored (c : InnerClass) (pool : FrozenPool) :
    Except CompileError InnerClassEntry := do
  let inner ← c.inner.index pool
  let outer ← classIndexOrZero pool c.outer
  let name ← match c.simpleName with
    | none => pure 0
    | some name => (pool.textIndex name).mapError .pool
  return ⟨inner, outer, name, c.flags⟩

namespace ClassPlan

/-- The `InnerClasses` attribute of a class with nested classes. -/
def innerAttribute (p : ClassPlan) (pool : FrozenPool) : Except CompileError (List Attribute) := do
  if p.model.innerClasses.isEmpty then
    return []
  else
    let classes ← p.model.innerClasses.mapM (InnerClass.stored · pool)
    let body : InnerClassesBody := ⟨UInt16.ofNat classes.length, classes⟩
    return [← pool.attributeOf "InnerClasses" body.toBytes]

/-- The `SourceFile` attribute of a class with a source file. -/
def sourceAttribute (p : ClassPlan) (pool : FrozenPool) : Except CompileError (List Attribute) :=
  match p.model.sourceFile with
  | none => return []
  | some source => return [← pool.indexAttribute "SourceFile" (.utf8 source)]

/-- The class file of a planned class, with the indices of the pool. -/
def classFile (p : ClassPlan) (version : ClassVersion) (pool : FrozenPool) :
    Traced CompileError ClassFile := do
  let fields ← p.fields.mapM (FieldPlan.info · pool)
  let methods ← p.methods.mapM (MethodPlan.info · pool)
  let signature ← pool.signatureAttribute p.signature
  let inner ← p.innerAttribute pool
  let source ← p.sourceAttribute pool
  let attributes := signature ++ inner ++ source
  let interfaces ← p.model.interfaces.mapM (ClassType.index · pool)
  let superClass ← classIndexOrZero pool p.model.superclass
  let constPool ← pool.records.mapError CompileError.pool
  Traced.note (.built p.model.type.name.internal pool.count fields.length methods.length)
  let thisClass ← p.model.type.index pool
  return {
    minor := version.minor
    major := version.major
    constPoolSize := UInt16.ofNat pool.count
    constPool := constPool.toArray
    flags := p.model.flags
    thisClass
    superClass
    interfacesCount := UInt16.ofNat interfaces.length
    interfaces
    fieldsCount := UInt16.ofNat fields.length
    fields
    methodsCount := UInt16.ofNat methods.length
    methods
    attributesCount := UInt16.ofNat attributes.length
    attributes }

end ClassPlan

/-- The class file of a class. -/
def ClassModel.build (c : ClassModel) (version : ClassVersion) (optimizer : Optimizer) :
    Traced CompileError ClassFile :=
  Traced.mapError (.inClass c.type.name.internal) do
    let plan ← c.plan optimizer
    let pool ← plan.pool
    plan.classFile version pool

end ClassForge
