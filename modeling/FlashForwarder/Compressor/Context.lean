import FlashForwarder.Compressor.Template

/-!
# Contexts

A `Context` keeps, for each template, the snapshots of the messages last seen: the encoder finds
them by token, the decoder by the index on the wire.
-/

namespace FlashForwarder

open WireFormat ProgramLoop

/-- `snapShotCacheMap_t`: tokens in the order they were entered, each with the place in the
snapshot array of the message that the map and the array share. -/
abbrev SnapShotCacheMap := List (List UInt8 × Nat)

/-- `snapShotCacheArray_t`: shared pointers, null where nothing was stored. -/
abbrev SnapShotCacheArray := List (Option Message)

/-- The members of `Context`. -/
structure Context where
  /-- `templates_` -/
  templates : Templates
  /-- `templateCacheMaps_` -/
  templateCacheMaps : List SnapShotCacheMap
  /-- `templateCacheArrays_` -/
  templateCacheArrays : List SnapShotCacheArray

namespace Context

/-- A context as constructed over a set of templates. -/
def new (templates : Templates) : Context where
  templates := templates
  templateCacheMaps := List.replicate templates.getTemplatesCount.toNat []
  templateCacheArrays := List.replicate templates.getTemplatesCount.toNat []

/-- `encode`; there is no result when behaviour is undefined. -/
def encode (context : Context) (message : Message) (templateID : UInt32) (token : List UInt8)
    (buffer : List UInt8) : Option (Context × List UInt8) :=
  match context.templates.getTemplate templateID with
  | none => some (context, buffer)
  | some tmp => do
      let index := tmp.index.toNat
      let cacheMap ← context.templateCacheMaps[index]?
      let cacheArray ← context.templateCacheArrays[index]?
      match cacheMap.lookup token with
      | some slot =>
          let cacheMessage ← cacheArray[slot]?.join
          let (cacheMessage, buffer) ← tmp.encode message cacheMessage buffer
          return ({ context with
            templateCacheArrays := context.templateCacheArrays.set index
              (cacheArray.set slot (some cacheMessage)) }, buffer)
      | none =>
          let cacheMessage := message.setIndex (UInt64.ofNat cacheArray.length)
          let buffer ← tmp.encodeFull cacheMessage buffer
          return ({ context with
            templateCacheMaps := context.templateCacheMaps.set index
              (cacheMap ++ [(token, cacheArray.length)])
            templateCacheArrays := context.templateCacheArrays.set index
              (cacheArray ++ [some cacheMessage]) }, buffer)

/-- `max_size` of a snapshot array, whose shared pointers take 16 bytes each. -/
def maxSize : Nat := (2 ^ 63 - 1) / 16

/-- `std::vector::resize` of a snapshot array, which throws beyond `maxSize`. -/
def resize (array : SnapShotCacheArray) (size : UInt64) : Option SnapShotCacheArray :=
  if size.toNat ≤ maxSize then
    some (array.take size.toNat ++ List.replicate (size.toNat - array.length) none)
  else
    none

/-- The variables of the loop in `decode`. -/
structure Cursor where
  /-- `begin` -/
  begin_ : Int
  /-- `size` -/
  size : UInt64
  /-- The output vector. -/
  messages : List Message
  /-- The context. -/
  context : Context

/-- What `decode` leaves behind. -/
structure Decoded where
  /-- The output vector. -/
  messages : List Message
  /-- The context. -/
  context : Context

/-- Leave the loop as it stands. -/
def Cursor.stop (cursor : Cursor) : Pass Cursor Decoded :=
  .leave ⟨cursor.messages, cursor.context⟩

/-- A varint length that `decode` refuses: the comparison is made in 64 bits, unsigned. -/
def refuses (size : UInt64) (n : Int) : Bool := n = -1 ∨ (size.toNat : Int) < n

theorem refuses_eq_false (size : UInt64) {n : Nat} (room : n ≤ size.toNat) :
    refuses size n = false := by
  simp only [refuses, decide_eq_false_iff_not, not_or]
  omega

/-- An accepted length comes off the size without a wrap. -/
theorem toNat_sub_ofInt (size : UInt64) {n : Nat} (room : n ≤ size.toNat) :
    (size - UInt64.ofInt (n : Int)).toNat = size.toNat - n := by
  have small := size.toNat_lt
  have cast : UInt64.ofInt (n : Int) = UInt64.ofNat n := by
    rw [UInt64.ofInt]
    congr 1
    omega
  rw [cast, UInt64.toNat_sub_of_le]
  · rw [UInt64.toNat_ofNat', Nat.mod_eq_of_lt (by omega)]
  · rw [UInt64.le_iff_toNat_le, UInt64.toNat_ofNat', Nat.mod_eq_of_lt (by omega)]
    exact room

/-- The snapshot that an index names, in its array: an entry, or one made up from the template's
message where the index is new.  There is none if the array cannot be made long enough. -/
def selectSnapshot (tmp : Template) (snapShotArray : SnapShotCacheArray) (cacheIndex : UInt64) :
    Traced Event (Option (SnapShotCacheArray × Message)) :=
  if cacheIndex.toNat ≥ snapShotArray.length then
    match resize snapShotArray (cacheIndex + 1) with
    | none => do
        Traced.emit .lengthError
        return none
    | some grown => do
        let inputMessage ← Traced.ofOption tmp.inputMessage
        let held := decide (cacheIndex.toNat < grown.length)
        Traced.emit (.snapshot grown.length cacheIndex.toNat held)
        if held then
          return some (grown, (inputMessage.setIndex cacheIndex).reset)
        else
          Traced.undefined
  else do
    let entry := snapShotArray[cacheIndex.toNat]?.join
    Traced.emit (.snapshot snapShotArray.length cacheIndex.toNat entry.isSome)
    let cacheMessage ← Traced.ofOption entry
    return some (snapShotArray, cacheMessage)

/-- Decode one message against the snapshot that its index names. -/
def decodeMessage (memory : Memory) (cursor : Cursor) (tmp : Template) (cacheIndex : UInt64) :
    Traced Event (Pass Cursor Decoded) := do
  let slot := tmp.index.toNat
  let snapShotArray ← Traced.ofOption cursor.context.templateCacheArrays[slot]?
  match ← selectSnapshot tmp snapShotArray cacheIndex with
  | none => return cursor.stop
  | some (snapShotArray, cacheMessage) => do
      let decoded ← tmp.decode memory cursor.begin_ cursor.size cursor.messages cacheMessage
      let context :=
        { cursor.context with
          templateCacheArrays := cursor.context.templateCacheArrays.set slot
            (snapShotArray.set cacheIndex.toNat (some decoded.cacheMessage)) }
      if decoded.ret = -1 then
        return .leave ⟨[], context⟩
      else do
        Traced.emit (.debit cursor.size.toNat decoded.ret)
        return .again
          { begin_ := cursor.begin_ + decoded.ret
            size := cursor.size - UInt64.ofInt decoded.ret
            messages := decoded.messages
            context := context }

/-- One pass of the loop in `decode`, where the last byte is at `end_`. -/
def decodePass (memory : Memory) (end_ : Int) (cursor : Cursor) :
    Traced Event (Pass Cursor Decoded) :=
  if cursor.begin_ ≤ end_ then do
    let templateId ← readVarint32At memory cursor.begin_
    if refuses cursor.size templateId.ret then
      return cursor.stop
    else do
      Traced.emit (.debit cursor.size.toNat templateId.ret)
      let cursor :=
        { cursor with
          begin_ := cursor.begin_ + templateId.ret
          size := cursor.size - UInt64.ofInt templateId.ret }
      let cacheIndex ← readVarint64At memory cursor.begin_
      if refuses cursor.size cacheIndex.ret then
        return cursor.stop
      else do
        Traced.emit (.debit cursor.size.toNat cacheIndex.ret)
        let cursor :=
          { cursor with
            begin_ := cursor.begin_ + cacheIndex.ret
            size := cursor.size - UInt64.ofInt cacheIndex.ret }
        match cursor.context.templates.getTemplate (templateId.value.getD 0) with
        | none => return cursor.stop
        | some tmp => decodeMessage memory cursor tmp (cacheIndex.value.getD 0)
  else
    return cursor.stop

theorem decodePass_of_past {memory : Memory} {end_ : Int} {cursor : Cursor}
    (past : ¬cursor.begin_ ≤ end_) : decodePass memory end_ cursor = pure cursor.stop :=
  if_neg past

/-- The cursor at the start of a buffer. -/
def start (context : Context) (size : UInt64) (messages : List Message) : Cursor :=
  ⟨0, size, messages, context⟩

/-- `decode`, allowed `fuel` passes, on a buffer that starts at address 0. -/
def decode (fuel : Nat) (context : Context) (memory : Memory) (size : UInt64)
    (messages : List Message) : Traced Event Decoded :=
  if size = 0 then
    return ⟨messages, context⟩
  else
    Traced.loop (decodePass memory (size.toNat - 1)) fuel (context.start size messages)

/-- `decode` is left, by its end or by `std::length_error`, and leaves `result` behind. -/
def Decodes (context : Context) (memory : Memory) (size : UInt64) (messages : List Message)
    (result : Decoded) : Prop :=
  ∃ fuel, (context.decode fuel memory size messages).outcome = some result

end Context

end FlashForwarder
