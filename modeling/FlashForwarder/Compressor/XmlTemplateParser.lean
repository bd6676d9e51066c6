import FlashForwarder.Compressor.Template

/-!
# The template parser

`XmlTemplateParser::parse` walks the element tree that tinyxml2 has made of a document: the
elements from the first `<template>` under `<templates>` on, and under each its fields.  Each field
element adds a field to the template's message and an instruction to the template, one beside the
other.
-/

namespace FlashForwarder

/-- An `XMLElement` with the elements below it; text and comments are skipped by every call here. -/
structure XmlElement where
  /-- `Name()` -/
  name : String
  /-- The attributes, in the order of the document. -/
  attributes : List (String × String)
  /-- The elements below. -/
  children : List XmlElement

/-! ## Numbers -/

/-- `isspace` -/
def isSpace (letter : Char) : Bool := letter ∈ [' ', '\t', '\n', '\x0b', '\x0c', '\r']

/-- A decimal number at the start of a text, if there is one. -/
def scanDigits (text : List Char) : Option Nat :=
  match text.takeWhile Char.isDigit with
  | [] => none
  | digits => some (digits.foldl (fun value digit => 10 * value + (digit.toNat - '0'.toNat)) 0)

/-- The bits of the `int` that a number becomes; one that is out of range, where C leaves the result
open, is held in 64 bits and then cut to 32. -/
def toIntBits (value : Int) : UInt32 :=
  UInt32.ofInt (min (max value (-9223372036854775808)) 9223372036854775807)

/-- `XMLUtil::ToInt`, which is `sscanf` with `%d`; the `int` is given by its bits. -/
def scanInt (text : String) : Option UInt32 :=
  match text.toList.dropWhile isSpace with
  | '-' :: digits => (scanDigits digits).map fun value => toIntBits (-(value : Int))
  | '+' :: digits => (scanDigits digits).map fun value => toIntBits value
  | digits => (scanDigits digits).map fun value => toIntBits value

namespace XmlElement

variable (element : XmlElement)

/-- `Attribute`: the value, `none` for a null pointer. -/
def attributeValue (name : String) : Option String := element.attributes.lookup name

/-- `QueryIntAttribute`; the value is given by its bits, `none` stands for an error. -/
def queryIntAttribute (name : String) : Option UInt32 := (element.attributeValue name).bind scanInt

end XmlElement

namespace XmlTemplateParser

/-- What the five names of field elements stand for: the type of the field, and the instruction.
That of an `int32` is instantiated at `uint64_t`, whose overloads ignore an `INT32` field. -/
def fieldClass (fieldType : String) : Option (FieldType × (InstructionType → FieldInstruction)) :=
  if fieldType = "int64" then some (.int64, fun type => .int64 ⟨type, true, false, 0⟩)
  else if fieldType = "uint64" then some (.uint64, fun type => .uint64 ⟨type, false, false, 0⟩)
  else if fieldType = "int32" then some (.int32, fun type => .uint64 ⟨type, true, true, 0⟩)
  else if fieldType = "uint32" then some (.uint32, fun type => .uint32 ⟨type, false, true, 0⟩)
  else if fieldType = "string" then some (.string, fun type => .string ⟨type, 0⟩)
  else none

/-- The two actions; any other leaves the pointer to the instruction null. -/
def actionType (insType : String) : Option InstructionType :=
  if insType = "delta" then some .delta
  else if insType = "copy" then some .copy
  else none

/-- `tmp` and `message` in the course of one `<template>` element. -/
structure Parsing where
  /-- `*tmp` -/
  tmp : Template
  /-- `*message` -/
  message : Message

/-- `message->addField` and `tmp->addInstruction`. -/
def Parsing.add (parsing : Parsing) (type : FieldType) (ins : FieldInstruction) : Parsing :=
  ⟨parsing.tmp.addInstruction ins, parsing.message.addField (Field.new type)⟩

/-- The loop over the field elements of a template; `none` if its behaviour is undefined, where a
`std::string` is made of a null pointer or `addInstruction` follows one. -/
def parseFields : List XmlElement → Parsing → Option Parsing
  | [], parsing => some parsing
  | fieldins :: siblings, parsing =>
      match fieldins.attributeValue "action" with
      | none => none
      | some insType =>
          if fieldins.name.isEmpty || insType.isEmpty then some parsing
          else
            match fieldClass fieldins.name with
            | none => parseFields siblings parsing
            | some (type, create) =>
                match actionType insType with
                | none => none
                | some action => parseFields siblings (parsing.add type (create action))

/-- The loop over the elements from the first `<template>` on; the inner `none` is `nullptr`. -/
def parseTemplates : List XmlElement → Templates → Option (Option Templates)
  | [], tmps => some (some tmps)
  | it :: siblings, tmps =>
      match it.queryIntAttribute "id" with
      | none => some none
      | some templateId =>
          if it.children.isEmpty then some (some tmps)
          else
            match parseFields it.children ⟨Template.new templateId, Message.new⟩ with
            | none => none
            | some parsing =>
                parseTemplates siblings (tmps.addTemplate (parsing.tmp.setMessage parsing.message))

/-- The elements that the outer loop goes through, if it is not left early. -/
def templateElements (document : List XmlElement) : List XmlElement :=
  match document.find? (·.name = "templates") with
  | none => []
  | some root => root.children.dropWhile (·.name ≠ "template")

/-- `parse`, on the elements that tinyxml2 has found at the top of the document, `none` if it
reports an error. -/
def parse : Option (List XmlElement) → Option (Option Templates)
  | none => some none
  | some document => parseTemplates (templateElements document) Templates.new

end XmlTemplateParser

end FlashForwarder
