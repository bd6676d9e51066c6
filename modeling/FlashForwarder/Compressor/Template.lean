import FlashForwarder.Compressor.Instruction

/-!
# Templates

A template encodes and decodes one message, field after field, behind its id, the snapshot's
index and a presence map.  `Templates` finds templates by id and gives each an 8-bit slot.
-/

namespace FlashForwarder

open WireFormat

/-- The members of `Template`; `pMap_` is set at the start of every call that reads it. -/
structure Template where
  /-- `id_` -/
  id : UInt32
  /-- `index_` -/
  index : UInt8
  /-- `instrcutionArray_` -/
  instructions : List FieldInstruction
  /-- `inputMessage_`, which may be null. -/
  inputMessage : Option Message

namespace Template

/-- A template as constructed; `index_` is set when the template is added to a set. -/
def new (id : UInt32) : Template := ⟨id, 0, [], none⟩

/-- `setMessage` -/
def setMessage (template : Template) (message : Message) : Template :=
  { template with inputMessage := some message }

/-- `setIndex` -/
def setIndex (template : Template) (index : UInt8) : Template := { template with index := index }

/-- `addInstruction` -/
def addInstruction (template : Template) (instruction : FieldInstruction) : Template :=
  { template with
    instructions := template.instructions ++
      [instruction.setIndex (UInt16.ofNat template.instructions.length)] }

/-- The id and the snapshot index in front of the presence map. -/
def header (template : Template) (index : UInt64) : List UInt8 :=
  writeVarint32 template.id ++ writeVarint64 index

/-- Store the presence map at `pmapSize`, an `int`. -/
def storePMap (buffer : List UInt8) (pmapSize : Int) (pMap : UInt32) : Option (List UInt8) :=
  if 0 ≤ pmapSize ∧ pmapSize.toNat + 4 ≤ buffer.length then
    some (buffer.take pmapSize.toNat ++ hostUint32 pMap ++ buffer.drop (pmapSize.toNat + 4))
  else
    none

/-- `encode` against a snapshot. -/
def encode (template : Template) (message cacheMessage : Message) (buffer : List UInt8) :
    Option (Message × List UInt8) := do
  let buffer := buffer ++ template.header cacheMessage.index
  let pmapSize := toInt32 buffer.length
  let buffer := buffer ++ [0, 0, 0, 0]
  let state ← template.instructions.foldlM
    (fun state instruction => instruction.encode message state) ⟨cacheMessage, buffer, 0⟩
  let buffer ← storePMap state.buffer pmapSize state.pMap
  return (state.cacheMessage, buffer)

/-- `encode` in full. -/
def encodeFull (template : Template) (message : Message) (buffer : List UInt8) :
    Option (List UInt8) := do
  let buffer := buffer ++ template.header message.index
  let pmapSize := toInt32 buffer.length
  let buffer := buffer ++ [0, 0, 0, 0]
  let buffer ← template.instructions.foldlM
    (fun buffer instruction => instruction.encodeFull message buffer) buffer
  storePMap buffer pmapSize fullMap

/-- The variables of the loop in `decode`. -/
structure Cursor where
  /-- `begin` -/
  begin_ : Int
  /-- `bufferSize`, an `int` -/
  bufferSize : Int
  /-- `consume`, an `int` -/
  consume : Int
  /-- `message.back()` -/
  message : Message
  /-- `cacheMessage` -/
  cacheMessage : Message

/-- The loop over the instructions in `decode`. -/
def decodeFields (memory : Memory) (pMap : UInt32) :
    List FieldInstruction → Cursor → Traced Event FieldDecoded
  | [], cursor => return ⟨cursor.consume, cursor.message, cursor.cacheMessage⟩
  | instruction :: instructions, cursor =>
      if cursor.bufferSize < 0 then do
        Traced.emit .cut
        return ⟨cursor.consume, cursor.message, cursor.cacheMessage⟩
      else do
        let field ← instruction.decode memory cursor.begin_ (UInt64.ofNat cursor.bufferSize.toNat)
          cursor.message cursor.cacheMessage pMap
        if field.ret = -1 then
          return ⟨-1, field.message, field.cacheMessage⟩
        else do
          Traced.emit (.debit cursor.bufferSize field.ret)
          decodeFields memory pMap instructions
            { begin_ := cursor.begin_ + field.ret
              bufferSize := toInt32 (cursor.bufferSize - field.ret)
              consume := toInt32 (cursor.consume + field.ret)
              message := field.message
              cacheMessage := field.cacheMessage }

/-- What `decode` leaves behind. -/
structure Decoded where
  /-- The bytes consumed, or `-1`. -/
  ret : Int
  /-- The output vector. -/
  messages : List Message
  /-- The snapshot. -/
  cacheMessage : Message

/-- `decode` -/
def decode (template : Template) (memory : Memory) (buffer : Int) (size : UInt64)
    (messages : List Message) (cacheMessage : Message) : Traced Event Decoded :=
  if size = 0 then
    return ⟨-1, messages, cacheMessage⟩
  else do
    let bufferSize := toInt32 size.toNat
    Traced.emit (.read buffer 4)
    let pMap := getUint32 (memory.read buffer 4).reverse
    Traced.emit (.debit bufferSize 4)
    let message ← Traced.ofOption template.inputMessage
    let fields ← decodeFields memory pMap template.instructions
      ⟨buffer + 4, toInt32 (bufferSize - 4), 4, message, cacheMessage⟩
    return ⟨fields.ret, messages ++ [fields.message], fields.cacheMessage⟩

end Template

/-- The members of `Templates`. -/
structure Templates where
  /-- `templatesMap_` -/
  templatesMap : UInt32 → Option Template
  /-- `index_` -/
  index : UInt8

namespace Templates

/-- A set as constructed. -/
def new : Templates := ⟨fun _ => none, 0⟩

/-- `getTemplate` -/
def getTemplate (templates : Templates) (id : UInt32) : Option Template :=
  templates.templatesMap id

/-- `addTemplate` -/
def addTemplate (templates : Templates) (template : Template) : Templates where
  templatesMap id :=
    if id = template.id then some (template.setIndex templates.index)
    else templates.templatesMap id
  index := templates.index + 1

/-- `getTemplatesCount` -/
def getTemplatesCount (templates : Templates) : UInt8 := templates.index

/-- The set after successive `addTemplate` calls. -/
def ofList (added : List Template) : Templates := added.foldl addTemplate new

end Templates

end FlashForwarder
