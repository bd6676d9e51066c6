import FlashForwarder.Library.Loop
import FlashForwarder.Wire

/-!
# The frame decoder

`szBinary_decoder_t` cuts a byte stream into frames of an eight-byte header, a body and a
four-byte checksum.  Lengths are kept in a signed `int` and mixed with `size_t`, so every
difference below is reduced to 32 bits as the source's conversions reduce it.
-/

namespace FlashForwarder

open ProgramLoop

/-- `sizeof(SZB_Head)`. -/
def headSize : Nat := 8

/-- `sizeof(SZB_Tail)`. -/
def tailSize : Nat := 4

/-- The decoder's `STATE`. -/
inductive DecoderState where
  | head
  | body
  | tail
  deriving DecidableEq, Repr

/-- The members of `szBinary_decoder_t`. -/
structure SzBinaryDecoder where
  /-- `state_` -/
  state : DecoderState
  /-- `decodeBuffer_` -/
  decodeBuffer : List UInt8
  /-- `bodySize_`, an `int` -/
  bodySize : Int
  deriving DecidableEq, Repr

/-- One chunk handed to `decode`, with whatever lies around it in memory. -/
structure Chunk where
  /-- The bytes between `begin` and `end`. -/
  bytes : List UInt8
  /-- The bytes on both sides of the chunk. -/
  outside : Memory

/-- The memory a chunk is read from. -/
def Chunk.memory (chunk : Chunk) : Memory := Memory.ofBuffer chunk.bytes chunk.outside

/-- `GenerateCheckSum`: the byte sum in 32 bits, reduced mod 256. -/
def generateCheckSum (buffer : List UInt8) : UInt32 :=
  buffer.foldl (fun checkSum byte => checkSum + byte.toUInt32) 0 % 256

namespace SzBinaryDecoder

/-- The decoder as constructed. -/
def fresh : SzBinaryDecoder := ⟨.head, [], 0⟩

/-- `reset`. -/
def reset (_ : SzBinaryDecoder) : SzBinaryDecoder := ⟨.head, [], 0⟩

@[simp] theorem reset_eq_fresh (decoder : SzBinaryDecoder) : decoder.reset = fresh := rfl

/-- What one call of `consume` leaves behind. -/
structure Consumed where
  /-- The returned code. -/
  ret : Int
  /-- The decoder afterwards. -/
  decoder : SzBinaryDecoder
  /-- The reference parameter `consumed` afterwards. -/
  consumed : Int
  /-- The buffers passed to the handler. -/
  handed : List (List UInt8)

/-- `decodeBuffer_` after `count` further bytes from `begin` on; no byte when `count` is
negative. -/
def pushBytes (decoder : SzBinaryDecoder) (memory : Memory) (begin_ count : Int) : List UInt8 :=
  decoder.decodeBuffer ++ memory.read begin_ count.toNat

/-- `consume`: one pass over the bytes between `begin` and `end`. -/
def consume (decoder : SzBinaryDecoder) (memory : Memory) (begin_ end_ consumed : Int) :
    Consumed :=
  let toRead := toInt32 (end_ - begin_)
  match decoder.state with
  | .head =>
      let headLack := toInt32 (headSize - decoder.decodeBuffer.length)
      if headLack ≤ toRead then
        let buffer := decoder.pushBytes memory begin_ headLack
        { ret := 0
          decoder := ⟨.body, buffer, toInt32 (getUint32 (buffer.drop 4)).toNat⟩
          consumed := headLack
          handed := [] }
      else
        { ret := 0
          decoder := { decoder with decodeBuffer := decoder.pushBytes memory begin_ toRead }
          consumed := toRead
          handed := [] }
  | .body =>
      let bodyLack := toInt32 (decoder.bodySize - decoder.decodeBuffer.length + headSize)
      if bodyLack ≤ toRead then
        { ret := 0
          decoder :=
            { decoder with
              state := .tail
              decodeBuffer := decoder.pushBytes memory begin_ bodyLack }
          consumed := bodyLack
          handed := [] }
      else
        { ret := 0
          decoder := { decoder with decodeBuffer := decoder.pushBytes memory begin_ toRead }
          consumed := toRead
          handed := [] }
  | .tail =>
      let tailLack :=
        toInt32 (decoder.bodySize + headSize + tailSize - decoder.decodeBuffer.length)
      if tailLack ≤ toRead then
        let buffer := decoder.pushBytes memory begin_ tailLack
        let checkSum := generateCheckSum (buffer.take (buffer.length - 4))
        let wireSum := getUint32 (buffer.drop (buffer.length - 4))
        if wireSum ≠ checkSum then
          -- `consumed` keeps its old value on this branch
          { ret := -1, decoder := decoder.reset, consumed, handed := [] }
        else
          { ret := 0, decoder := decoder.reset, consumed := tailLack, handed := [buffer] }
      else
        { ret := 0
          decoder := { decoder with decodeBuffer := decoder.pushBytes memory begin_ toRead }
          consumed := toRead
          handed := [] }

/-- The variables of the loop in `decode`, with the buffers handed on so far. -/
structure Cursor where
  /-- The decoder between two passes. -/
  decoder : SzBinaryDecoder
  /-- `begin`, as an offset into the chunk. -/
  begin_ : Int
  /-- `consumed` -/
  consumed : Int
  /-- The buffers passed to the handler so far. -/
  handed : List (List UInt8)

/-- What a call of `decode` leaves behind. -/
structure Decoded where
  /-- The returned code. -/
  ret : Int
  /-- The decoder afterwards. -/
  decoder : SzBinaryDecoder
  /-- The buffers passed to the handler, in order. -/
  handed : List (List UInt8)
  deriving DecidableEq

/-- One pass of the loop in `decode`. -/
def decodePass (memory : Memory) (end_ : Int) (cursor : Cursor) : Pass Cursor Decoded :=
  if cursor.begin_ < end_ then
    let step := cursor.decoder.consume memory cursor.begin_ end_ cursor.consumed
    if step.ret ≠ 0 then
      .leave ⟨step.ret, step.decoder, cursor.handed ++ step.handed⟩
    else
      .again ⟨step.decoder, cursor.begin_ + step.consumed, step.consumed,
        cursor.handed ++ step.handed⟩
  else
    .leave ⟨0, cursor.decoder, cursor.handed⟩

/-- `decode`, allowed `fuel` passes. -/
def decode (fuel : Nat) (decoder : SzBinaryDecoder) (chunk : Chunk) : Option Decoded :=
  run (decodePass chunk.memory chunk.bytes.length) fuel ⟨decoder, 0, 0, []⟩

/-- `decode` returns, leaving `result`. -/
def Decodes (decoder : SzBinaryDecoder) (chunk : Chunk) (result : Decoded) : Prop :=
  Leaves (decodePass chunk.memory chunk.bytes.length) ⟨decoder, 0, 0, []⟩ result

/-- Successive `decode` calls that all return: the returned codes and the buffers handed on. -/
inductive Feeds : SzBinaryDecoder → List Chunk → List Int → List (List UInt8) →
    SzBinaryDecoder → Prop
  | nil (decoder : SzBinaryDecoder) : Feeds decoder [] [] [] decoder
  | cons {decoder final : SzBinaryDecoder} {chunk : Chunk} {chunks : List Chunk}
      {result : Decoded} {rets : List Int} {handed : List (List UInt8)} :
      Decodes decoder chunk result →
      Feeds result.decoder chunks rets handed final →
      Feeds decoder (chunk :: chunks) (result.ret :: rets) (result.handed ++ handed) final

end SzBinaryDecoder

end FlashForwarder
