import ClassForge.Descriptor.Parse
import ClassForge.Listing.Decode
import ClassForge.Record.ClassFile
import ClassForge.Text.Decimal
import ClassForge.Text.Quoted

/-!
# Listings

A listing shows a class file to a reader: its header, its constants, its members, the
attributes that are known and the code of its methods. Nothing is checked. An index that
does not lead to what is expected there is shown as it is.

The name and type of a member is looked up as any other constant, so that a broken class file
may lead from member to member in a circle. Such a class file has no listing.
-/

namespace ClassForge

namespace ClassFile

/-- An index that does not lead to what is expected. -/
def strayIndex (index : UInt16) : String :=
  "<#" ++ toString index.toNat ++ ">"

/-- The text at an index, or the index. -/
def showText (c : ClassFile) (index : UInt16) : String :=
  (c.text? index).getD (strayIndex index)

/-- The name of the class at an index, or the index. -/
def showClass (c : ClassFile) (index : UInt16) : String :=
  (c.className? index).getD (strayIndex index)

/-- The name and the descriptor at two indices. -/
def showNameAndType (c : ClassFile) (name descriptor : UInt16) : String :=
  c.showText name ++ ":" ++ c.showText descriptor

/-- A constant in short, where `next?` shows the constant that a member leads to. -/
def summaryBy? (c : ClassFile) (next? : UInt16 → Option String) (index : UInt16) :
    Option String :=
  match c.constant? index with
  | some (.utf8 _ bytes) => some (Text.ModifiedUtf8.text bytes)
  | some (.integer value) => some (toString value.toInt)
  | some (.float bits) => some (Text.Decimal.ofBits32 bits ++ "f")
  | some (.long value) => some (toString value.toInt ++ "l")
  | some (.double bits) => some (Text.Decimal.ofBits64 bits ++ "d")
  | some (.classRef name) => some (c.showText name)
  | some (.string text) => some (Text.quote (c.showText text))
  | some (.fieldRef owner member) | some (.methodRef owner member)
  | some (.interfaceMethodRef owner member) =>
    (next? member).map fun text => c.showClass owner ++ "." ++ text
  | some (.nameAndType name descriptor) => some (c.showNameAndType name descriptor)
  | some .unusable | none => some "<invalid>"

/-- A constant in short, found within `steps` references from member to member. -/
def summaryWithin? (c : ClassFile) : (steps : Nat) → (index : UInt16) → Option String
  | 0, _ => none
  | steps + 1, index => c.summaryBy? (c.summaryWithin? steps) index

/-- The number of steps after which references have come back to where they were. -/
def summarySteps (c : ClassFile) : Nat :=
  c.constPool.size + 1

/-- A constant in short, unless its references go in a circle. -/
def summary? (c : ClassFile) (index : UInt16) : Option String :=
  c.summaryWithin? c.summarySteps index

/-- A member of the class at `owner`, unless its references go in a circle. -/
def member? (c : ClassFile) (owner member : UInt16) : Option String := do
  let text ← c.summary? member
  return c.showClass owner ++ "." ++ text

/-! ### Constants -/

/-- An index in a listing. -/
def showIndex (index : UInt16) : String :=
  "#" ++ toString index.toNat

/-- The two indices of a member, and the member. -/
def memberText? (c : ClassFile) (owner member : UInt16) : Option String := do
  let text ← c.member? owner member
  return showIndex owner ++ "." ++ showIndex member ++ " // " ++ text

/-- A constant in full. -/
def recordText? (c : ClassFile) : Record → Option String
  | .utf8 _ bytes => return "Utf8 " ++ Text.ModifiedUtf8.text bytes
  | .integer value => return "Integer " ++ toString value.toInt
  | .float bits => return "Float " ++ Text.Decimal.ofBits32 bits ++ "f"
  | .long value => return "Long " ++ toString value.toInt ++ "l"
  | .double bits => return "Double " ++ Text.Decimal.ofBits64 bits ++ "d"
  | .classRef name => return "Class " ++ showIndex name ++ " // " ++ c.showText name
  | .string text => return "String " ++ showIndex text ++ " // " ++ Text.quote (c.showText text)
  | .fieldRef owner member => return "Fieldref " ++ (← c.memberText? owner member)
  | .methodRef owner member => return "Methodref " ++ (← c.memberText? owner member)
  | .interfaceMethodRef owner member =>
    return "InterfaceMethodref " ++ (← c.memberText? owner member)
  | .nameAndType name descriptor =>
    return "NameAndType " ++ showIndex name ++ ":" ++ showIndex descriptor ++ " // "
      ++ c.showNameAndType name descriptor
  | .unusable => return ""

/-- The line of a constant at a position, none for an unusable one. -/
def recordLine? (c : ClassFile) (r : Record) (position : Nat) : Option (Option String) :=
  match r with
  | .unusable => return none
  | _ => return some ("#" ++ toString (position + 1) ++ " = " ++ (← c.recordText? r))

end ClassFile

/-! ### Code -/

/-- The place at a distance from `offset`. -/
def showTarget (offset : Nat) (distance : Int32) : String :=
  toString (offset + distance.toInt : Int)

/-- A case of a switch at `offset`. -/
def caseText (offset : Nat) (key distance : Int32) : String :=
  toString key.toInt ++ ": " ++ showTarget offset distance

/-- Where a switch at `offset` goes for every other key. -/
def fallbackText (offset : Nat) (distance : Int32) : String :=
  "default: " ++ showTarget offset distance

/-- Cases whose keys follow one another. -/
def tableCases (offset : Nat) (low : Int32) (distances : List Int32) : List String :=
  distances.mapIdx fun i distance =>
    toString (low.toInt + i) ++ ": " ++ showTarget offset distance

namespace Operands

/-- The cases of a switch at `offset`. -/
def cases (offset : Nat) : Operands → List String
  | .table fallback low _ distances =>
    tableCases offset low distances ++ [fallbackText offset fallback]
  | .lookup fallback cases =>
    (cases.map fun (key, distance) => caseText offset key distance)
      ++ [fallbackText offset fallback]
  | _ => []

/-- The index of a constant, and the constant in short. -/
def poolText? (c : ClassFile) (index : UInt16) : Option String := do
  let text ← c.summary? index
  return ClassFile.showIndex index ++ " // " ++ text

/-- The operands of an opcode at `offset`. -/
def text? (c : ClassFile) (offset : Nat) : Operands → Option String
  | .none => return ""
  | .int8 value => return toString value.toInt
  | .int16 value => return toString value.toInt
  | .pool8 index => poolText? c index.toUInt16
  | .pool16 index | .dynamicCall index => poolText? c index
  | .slot n => return toString n.toNat
  | .increment n delta => return toString n.toNat ++ ", " ++ toString delta.toInt
  | .near distance => return showTarget offset distance.toInt32
  | .far distance => return showTarget offset distance
  | .interfaceCall index count | .arrays index count =>
    return (← poolText? c index) ++ ", " ++ toString count.toNat
  | .element type => return type.name
  | .wideSlot opcode n =>
    return (Opcode.mnemonic? opcode).getD "" ++ " " ++ toString n.toNat
  | .wideIncrement n delta =>
    return "iinc " ++ toString n.toNat ++ ", " ++ toString delta.toInt
  | .table _ low high _ => return toString low.toInt ++ " to " ++ toString high.toInt
  | .lookup _ cases => return toString cases.length ++ " pairs"

end Operands

/-- A line at a depth of two spaces a level. -/
structure ListingLine where
  depth : Nat
  text : String
  deriving DecidableEq, Repr

namespace ListingLine

/-- The line, ended. -/
def toString (l : ListingLine) : String :=
  String.join (List.replicate l.depth "  ") ++ l.text ++ "\n"

/-- Lines one level deeper. -/
def indent (lines : List ListingLine) : List ListingLine :=
  lines.map fun l => { l with depth := l.depth + 1 }

end ListingLine

/-- The lines of an instruction; the cases of a switch stand below it. -/
def CodeItem.lines? (c : ClassFile) : CodeItem → Option (List ListingLine)
  | .malformed offset => return [⟨0, toString offset ++ ": <malformed>"⟩]
  | .instruction offset d => do
    let operands ← d.operands.text? c offset
    let text := if operands.isEmpty then d.name else d.name ++ " " ++ operands
    return ⟨0, toString offset ++ ": " ++ text⟩
      :: (d.operands.cases offset).map fun text => ⟨1, text⟩

/-- The pieces of a list of lists of lines, in order. -/
def joinLines {α : Type} (lines? : α → Option (List ListingLine)) (items : List α) :
    Option (List ListingLine) := do
  return (← items.mapM lines?).flatten

namespace ClassFile

/-- The lines of some code. -/
def codeLines? (c : ClassFile) (code : List UInt8) : Option (List ListingLine) :=
  joinLines (CodeItem.lines? c) (CodeItem.sweep code)

/-! ### Attributes -/

/-- Names with commas between them. -/
def commaSeparated (names : List String) : String :=
  ", ".intercalate names

/-- The text of flags. -/
def showFlags (flags : UInt16) : String :=
  "flags 0x" ++ Text.hexPadded 4 flags.toNat

/-- The line of an exception entry. -/
def exceptionLine (c : ClassFile) (e : ExceptionEntry) : ListingLine :=
  let caught := if e.catchType = 0 then "any" else c.showClass e.catchType
  ⟨0, toString e.start.toNat ++ " " ++ toString e.stop.toNat ++ " " ++ toString e.handler.toNat
    ++ " " ++ caught⟩

/-- The lines of an exception table, none for an empty one. -/
def exceptionLines (c : ClassFile) (table : List ExceptionEntry) : List ListingLine :=
  if table.isEmpty then []
  else ⟨0, "exception table:"⟩ :: ListingLine.indent (table.map c.exceptionLine)

/-- The lines of a `Code` attribute. -/
def codeBodyLines? (c : ClassFile) (b : CodeBody) : Option (List ListingLine) := do
  let code ← c.codeLines? b.code
  let header := "Code: max_stack=" ++ toString b.maxStack.toNat ++ ", max_locals="
    ++ toString b.maxLocals.toNat
  return ⟨0, header⟩ :: ListingLine.indent (code ++ c.exceptionLines b.table)

/-- The line of a nested class. -/
def innerClassLine (c : ClassFile) (e : InnerClassEntry) : ListingLine :=
  let outer := if e.outer = 0 then "-" else c.showClass e.outer
  let name := if e.name = 0 then "-" else c.showText e.name
  ⟨0, c.showClass e.inner ++ " " ++ outer ++ " " ++ name ++ " " ++ showFlags e.flags⟩

/-- The lines of a body that was read, or the line of a broken one. -/
def bodyLines? {α : Type} (name : String) (body : Except ReadFault α)
    (lines? : α → Option (List ListingLine)) : Option (List ListingLine) :=
  match body with
  | .ok body => lines? body
  | .error _ => return [⟨0, name ++ ": malformed"⟩]

/-- The lines of an attribute. -/
def attributeLines? (c : ClassFile) (a : Attribute) : Option (List ListingLine) :=
  match c.showText a.name with
  | "Code" => bodyLines? "Code" (CodeBody.fromBytes a.info) c.codeBodyLines?
  | "ConstantValue" => bodyLines? "ConstantValue" (IndexBody.fromBytes a.info) fun body => do
    return [⟨0, "ConstantValue: " ++ (← c.summary? body.index)⟩]
  | "Exceptions" => bodyLines? "Exceptions" (ExceptionsBody.fromBytes a.info) fun body =>
    return [⟨0, "Exceptions: " ++ commaSeparated (body.classes.map c.showClass)⟩]
  | "Signature" => bodyLines? "Signature" (IndexBody.fromBytes a.info) fun body =>
    return [⟨0, "Signature: " ++ c.showText body.index⟩]
  | "SourceFile" => bodyLines? "SourceFile" (IndexBody.fromBytes a.info) fun body =>
    return [⟨0, "SourceFile: " ++ c.showText body.index⟩]
  | "InnerClasses" => bodyLines? "InnerClasses" (InnerClassesBody.fromBytes a.info) fun body =>
    return ⟨0, "InnerClasses:"⟩ :: ListingLine.indent (body.classes.map c.innerClassLine)
  | name => return [⟨0, name ++ ": " ++ toString a.info.length ++ " bytes"⟩]

/-! ### The class -/

/-- The lines of a field or method; `readable` tells whether a descriptor can be read. -/
def memberLines? (c : ClassFile) (readable : String → Bool) (m : MemberInfo) :
    Option (List ListingLine) := do
  let descriptor := c.showText m.descriptor
  let mark := if readable descriptor then "" else " <malformed descriptor>"
  let attributes ← joinLines c.attributeLines? m.attributes
  return ⟨0, c.showText m.name ++ " " ++ descriptor ++ " " ++ showFlags m.flags ++ mark⟩
    :: ListingLine.indent attributes

/-- The lines of fields or methods below a title, none where there are no members. -/
def membersLines? (c : ClassFile) (title : String) (readable : String → Bool)
    (members : List MemberInfo) : Option (List ListingLine) := do
  if members.isEmpty then
    return []
  else
    return ⟨0, title⟩ :: ListingLine.indent (← joinLines (c.memberLines? readable) members)

/-- The lines above the constants. -/
def headerLines (c : ClassFile) : List ListingLine :=
  let parent := if c.superClass = 0 then "" else " extends " ++ c.showClass c.superClass
  let interfaces : List ListingLine :=
    if c.interfaces.isEmpty then []
    else [⟨1, "implements " ++ commaSeparated (c.interfaces.map c.showClass)⟩]
  ⟨0, "class " ++ c.showClass c.thisClass ++ parent⟩
    :: ⟨1, "version " ++ toString c.major.toNat ++ "." ++ toString c.minor.toNat⟩
    :: ⟨1, showFlags c.flags⟩
    :: interfaces

/-- The lines of the constants. -/
def poolLines? (c : ClassFile) : Option (List ListingLine) := do
  let lines ← c.constPool.toList.zipIdx.mapM fun (r, position) => c.recordLine? r position
  return ⟨0, "constant pool:"⟩ :: (lines.filterMap id).map fun text => ⟨1, text⟩

/-- The lines of a class file. -/
def listingLines? (c : ClassFile) : Option (List ListingLine) := do
  let pool ← c.poolLines?
  let fields ← c.membersLines? "fields:" (fun d => (Ty.ofDescriptor d).isOk) c.fields
  let methods ← c.membersLines? "methods:" (fun d => (MethodType.ofDescriptor d).isOk) c.methods
  let attributes ← joinLines c.attributeLines? c.attributes
  return c.headerLines ++ pool ++ fields ++ methods ++ attributes

/-- The listing of a class file, unless its references go in a circle. -/
def listing? (c : ClassFile) : Option String := do
  return String.join ((← c.listingLines?).map ListingLine.toString)

end ClassFile

end ClassForge
