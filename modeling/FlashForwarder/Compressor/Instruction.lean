import FlashForwarder.Compressor.WireFormat
import FlashForwarder.Compressor.Field
import FlashForwarder.Library.Traced
import FlashForwarder.Wire

/-!
# Field instructions

`FieldInstructionInteger` and `FieldInstructionString`: how one field is put on the wire in full,
or as a difference from the snapshot, and read back.  The presence map is the template's
`pMap_`; `Template` sets it before every use, so it is passed along here.
-/

namespace FlashForwarder

open WireFormat

/-- `InstrcutionType` -/
inductive InstructionType where
  | copy
  | delta
  deriving DecidableEq, Repr

/-- What decoding records. -/
inductive Event where
  /-- Bytes are read at an offset from the buffer's start. -/
  | read (address : Int) (count : Nat)
  /-- An amount is taken off a count of remaining bytes. -/
  | debit (remaining amount : Int)
  /-- The loop over a template's instructions is left before its end. -/
  | cut
  /-- An element of a snapshot array of `count` elements is used; `held` if it is not null. -/
  | snapshot (count index : Nat) (held : Bool)
  /-- `std::length_error` is thrown, and `Context::decode` is left. -/
  | lengthError
  deriving DecidableEq

/-- `setpMap` -/
def setpMap (pMap : UInt32) (bit : UInt16) : UInt32 := pMap ||| ((1 : UInt32) <<< bit.toUInt32)

/-- The presence bit of a field. -/
def marked (pMap : UInt32) (bit : UInt16) : Bool := pMap &&& ((1 : UInt32) <<< bit.toUInt32) ≠ 0

/-- The presence map of a message encoded without field operations. -/
def fullMap : UInt32 := (1 : UInt32) <<< 31

/-- What a template hands from one instruction's `encode` to the next. -/
structure Encoding where
  /-- The snapshot. -/
  cacheMessage : Message
  /-- The output. -/
  buffer : List UInt8
  /-- The template's `pMap_`. -/
  pMap : UInt32

/-- What an instruction's `decode` leaves behind. -/
structure FieldDecoded where
  /-- The bytes consumed, or `-1`. -/
  ret : Int
  /-- The message being filled. -/
  message : Message
  /-- The snapshot. -/
  cacheMessage : Message

/-- `ReadVarint32` on memory. -/
def readVarint32At (memory : Memory) (address : Int) : Traced Event (VarintRead UInt32) := do
  let read := readVarint32 fun index => some (memory (address + index))
  Traced.emit (.read address read.touched)
  return read

/-- `ReadVarint64` on memory. -/
def readVarint64At (memory : Memory) (address : Int) : Traced Event (VarintRead UInt64) := do
  let read := readVarint64 fun index => some (memory (address + index))
  Traced.emit (.read address read.touched)
  return read

/-- Store a value into the snapshot and into the message being filled. -/
def setBoth (message cacheMessage : Message) (index : UInt16) (change : Field → Field)
    (consume : Int) : Traced Event FieldDecoded := do
  let cacheMessage ← Traced.ofOption (cacheMessage.modifyField index change)
  let message ← Traced.ofOption (message.modifyField index change)
  return ⟨consume, message, cacheMessage⟩

/-- The members of `FieldInstructionInteger`. -/
structure FieldInstructionInteger (α : Type) where
  /-- `type_` -/
  type : InstructionType
  /-- `signed_` -/
  signed : Bool
  /-- `shortBits_` -/
  shortBits : Bool
  /-- `index_` -/
  index : UInt16
  deriving DecidableEq

namespace FieldInstructionInteger

variable {α : Type} [FieldInteger α] [DecidableEq α] (instruction : FieldInstructionInteger α)

/-- The bytes of a changed value. -/
def write (newValue : α) : List UInt8 :=
  let bits := FieldInteger.toBits newValue
  if instruction.signed then
    if instruction.shortBits then
      writeSignedVarint32 bits.toUInt32.toInt32
    else
      writeSignedVarint64 bits.toInt64
  else
    if instruction.shortBits then
      writeVarint32 bits.toUInt32
    else
      writeVarint64 bits

/-- `static_cast<int64_t>(newValue) - cacheValue` in 64 bits. -/
def difference (newValue cacheValue : α) : Int64 :=
  (FieldInteger.toBits newValue - FieldInteger.toBits cacheValue).toInt64

/-- `encode` against the snapshot.  Both variables start out indeterminate; they are taken as 0,
which only an instruction of the wrong type can see. -/
def encode (message : Message) (state : Encoding) : Option Encoding := do
  let field ← message.getField instruction.index
  let cacheField ← state.cacheMessage.getField instruction.index
  let newValue : α := field.getInteger (FieldInteger.ofBits 0)
  let cacheValue : α := cacheField.getInteger (FieldInteger.ofBits 0)
  match instruction.type with
  | .copy =>
      if newValue ≠ cacheValue then
        let cacheMessage ←
          state.cacheMessage.modifyField instruction.index (·.setInteger newValue)
        return ⟨cacheMessage, state.buffer ++ instruction.write newValue,
          setpMap state.pMap instruction.index⟩
      else
        return state
  | .delta =>
      let delta := difference newValue cacheValue
      let cacheMessage ← state.cacheMessage.modifyField instruction.index (·.setInteger newValue)
      return ⟨cacheMessage, state.buffer ++ writeSignedVarint64 delta,
        setpMap state.pMap instruction.index⟩

/-- `encode` in full: the value as the host stores it. -/
def encodeFull (message : Message) (buffer : List UInt8) : Option (List UInt8) := do
  let field ← message.getField instruction.index
  let value : α := field.getInteger (FieldInteger.ofBits 0)
  return buffer ++ hostBytes (FieldInteger.size α) (FieldInteger.toBits value)

/-- Read a copied value.  A short reader stores the low half of `value`, which starts as 0; a long
reader overruns a variable of four bytes. -/
def read (memory : Memory) (buffer : Int) : Traced Event (Int × α) :=
  if instruction.shortBits then do
    let read ← readVarint32At memory buffer
    let bits := read.value.getD 0
    let low := if instruction.signed then (zigZagDecode32 bits).toUInt32 else bits
    return (read.ret, FieldInteger.ofBits low.toUInt64)
  else if FieldInteger.size α < 8 then
    Traced.undefined
  else do
    let read ← readVarint64At memory buffer
    let bits := read.value.getD 0
    let value := if instruction.signed then (zigZagDecode64 bits).toUInt64 else bits
    return (read.ret, FieldInteger.ofBits value)

/-- `decode` -/
def decode (memory : Memory) (buffer : Int) (size : UInt64) (message cacheMessage : Message)
    (pMap : UInt32) : Traced Event FieldDecoded :=
  if pMap &&& fullMap ≠ 0 then
    if size.toNat < FieldInteger.size α then
      return ⟨-1, message, cacheMessage⟩
    else do
      Traced.emit (.read buffer (FieldInteger.size α))
      let value : α :=
        FieldInteger.ofBits (hostValue (memory.read buffer (FieldInteger.size α)))
      setBoth message cacheMessage instruction.index (·.setInteger value) (FieldInteger.size α)
  else
    match instruction.type with
    | .copy =>
        if marked pMap instruction.index then do
          let (n, value) ← instruction.read memory buffer
          if n = -1 ∨ (size.toNat : Int) < n then
            return ⟨-1, message, cacheMessage⟩
          else
            setBoth message cacheMessage instruction.index (·.setInteger value) n
        else
          return ⟨0, message, cacheMessage⟩
    | .delta => do
        let read ← readVarint64At memory buffer
        let delta := zigZagDecode64 (read.value.getD 0)
        if read.ret = -1 ∨ (size.toNat : Int) < read.ret then
          return ⟨-1, message, cacheMessage⟩
        else do
          let cacheField ← Traced.ofOption (cacheMessage.getField instruction.index)
          let cacheValue : α := cacheField.getInteger (FieldInteger.ofBits 0)
          let newValue : α :=
            FieldInteger.ofBits (FieldInteger.toBits cacheValue + delta.toUInt64)
          setBoth message cacheMessage instruction.index (·.setInteger newValue) read.ret

end FieldInstructionInteger

/-- The members of `FieldInstructionString`. -/
structure FieldInstructionString where
  /-- `type_` -/
  type : InstructionType
  /-- `index_` -/
  index : UInt16
  deriving DecidableEq

/-- The bytes of a string: its length, cut to 32 bits, and that many of its bytes. -/
def stringBytes (value : List UInt8) : List UInt8 :=
  let size := UInt32.ofNat value.length
  writeVarint32 size ++ value.take size.toNat

/-- A string's length, cut to 32 bits, can be counted by the `int` that runs over its bytes. -/
def Writable (value : List UInt8) : Prop := (UInt32.ofNat value.length).toNat < 2147483648

instance (value : List UInt8) : Decidable (Writable value) :=
  inferInstanceAs (Decidable (_ < _))

/-- Write a string, with an `int` that runs over its bytes and must not overflow. -/
def writeString (value : List UInt8) : Option (List UInt8) :=
  if Writable value then some (stringBytes value) else none

namespace FieldInstructionString

variable (instruction : FieldInstructionString)

/-- `encode` against the snapshot. -/
def encode (message : Message) (state : Encoding) : Option Encoding := do
  let cacheField ← state.cacheMessage.getField instruction.index
  let field ← message.getField instruction.index
  let newValue := field.getString
  let cacheValue := cacheField.getString
  match instruction.type with
  | .copy =>
      if newValue ≠ cacheValue then
        let bytes ← writeString newValue
        let cacheMessage ←
          state.cacheMessage.modifyField instruction.index (·.setString newValue)
        return ⟨cacheMessage, state.buffer ++ bytes, setpMap state.pMap instruction.index⟩
      else
        return state
  | .delta => return state

/-- `encode` in full. -/
def encodeFull (message : Message) (buffer : List UInt8) : Option (List UInt8) := do
  let field ← message.getField instruction.index
  let bytes ← writeString field.getString
  return buffer ++ bytes

/-- Read a length and that many bytes into both messages. -/
def decodeString (memory : Memory) (buffer : Int) (size : UInt64)
    (message cacheMessage : Message) : Traced Event FieldDecoded := do
  let read ← readVarint32At memory buffer
  let len := read.value.getD 0
  if read.ret = -1 ∨ (size.toNat : Int) < read.ret ∨ size.toNat < len.toNat then
    return ⟨-1, message, cacheMessage⟩
  else do
    Traced.emit (.read (buffer + read.ret) len.toNat)
    let tmp := memory.read (buffer + read.ret) len.toNat
    setBoth message cacheMessage instruction.index (·.setString tmp)
      (toInt32 (read.ret + len.toNat))

/-- `decode` -/
def decode (memory : Memory) (buffer : Int) (size : UInt64) (message cacheMessage : Message)
    (pMap : UInt32) : Traced Event FieldDecoded :=
  if pMap = fullMap then
    instruction.decodeString memory buffer size message cacheMessage
  else
    match instruction.type with
    | .copy =>
        if marked pMap instruction.index then
          instruction.decodeString memory buffer size message cacheMessage
        else do
          let cacheField ← Traced.ofOption (cacheMessage.getField instruction.index)
          let message ← Traced.ofOption
            (message.modifyField instruction.index (·.setString cacheField.getString))
          return ⟨0, message, cacheMessage⟩
    | .delta => return ⟨-1, message, cacheMessage⟩

end FieldInstructionString

/-- `FieldInstruction`, by the classes that implement it. -/
inductive FieldInstruction where
  | int64 (instruction : FieldInstructionInteger Int64)
  | uint64 (instruction : FieldInstructionInteger UInt64)
  | uint32 (instruction : FieldInstructionInteger UInt32)
  | string (instruction : FieldInstructionString)

namespace FieldInstruction

/-- `encode` against the snapshot. -/
def encode : FieldInstruction → Message → Encoding → Option Encoding
  | int64 instruction => instruction.encode
  | uint64 instruction => instruction.encode
  | uint32 instruction => instruction.encode
  | string instruction => instruction.encode

/-- `encode` in full. -/
def encodeFull : FieldInstruction → Message → List UInt8 → Option (List UInt8)
  | int64 instruction => instruction.encodeFull
  | uint64 instruction => instruction.encodeFull
  | uint32 instruction => instruction.encodeFull
  | string instruction => instruction.encodeFull

/-- `decode` -/
def decode : FieldInstruction → Memory → Int → UInt64 → Message → Message → UInt32 →
    Traced Event FieldDecoded
  | int64 instruction => instruction.decode
  | uint64 instruction => instruction.decode
  | uint32 instruction => instruction.decode
  | string instruction => instruction.decode

/-- `setIndex` -/
def setIndex (index : UInt16) : FieldInstruction → FieldInstruction
  | int64 instruction => int64 { instruction with index := index }
  | uint64 instruction => uint64 { instruction with index := index }
  | uint32 instruction => uint32 { instruction with index := index }
  | string instruction => string { instruction with index := index }

/-- `index_` -/
def index : FieldInstruction → UInt16
  | int64 instruction => instruction.index
  | uint64 instruction => instruction.index
  | uint32 instruction => instruction.index
  | string instruction => instruction.index

end FieldInstruction

end FlashForwarder
