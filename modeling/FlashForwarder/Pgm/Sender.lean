import FlashForwarder.Library.Loop
import FlashForwarder.Pgm.Datagram

/-!
# The sending end

`PGMSender` reads messages from its pipe, has them serialised in batches, and cuts the bytes of the
batches into packets.  The serialiser and the pipe are outside the source and are parameters.
-/

namespace FlashForwarder

open ProgramLoop

/-- `kMaxMessagePerTime` -/
def kMaxMessagePerTime : Nat := 50

/-- `pgm_max_tpdu` -/
def pgmMaxTpdu : Nat := 1500

/-- What a sender is built from. -/
structure SenderOptions (σ π : Type) where
  /-- `out_buffer_size_`, which `GetMaxTsduSize` gives. -/
  outBufferSize : Nat
  /-- There is room for a header. -/
  headerSize_le : headerSize ≤ outBufferSize
  /-- A packet of the network holds more than what is sent in it. -/
  outBufferSize_le : outBufferSize ≤ pgmMaxTpdu
  /-- `compress_level` -/
  compressLevel : Nat
  /-- `Serialize` -/
  serialize : σ → List UInt8 → σ
  /-- `OnIncrement` of the increment session over the serialiser, if there is a factory for one. -/
  onIncrement : Option (σ → List UInt8 → σ)
  /-- `Flush`, with the batch that it gives. -/
  flush : σ → List UInt8 × σ
  /-- `io_pipe_->Read(0, &msg)`, with the message if it returns 0. -/
  read : π → Option (List UInt8) × π

/-- `offset_mask_` -/
def SenderOptions.offsetMask {σ π : Type} (options : SenderOptions σ π) : UInt16 :=
  UInt16.ofNat (options.compressLevel <<< kOffsetBitCount) |||
    if options.onIncrement.isSome then 0x8000 else 0

/-- The members of `PGMSender` that `OutEvent` uses. -/
structure PGMSender (σ π : Type) where
  /-- `serializer_` and `increment_session_` -/
  serializer : σ
  /-- `io_pipe_` -/
  ioPipe : π
  /-- `next_index_` -/
  nextIndex : UInt32
  /-- The bytes of `out_buffer_` to be written to the socket. -/
  outBuffer : List UInt8
  /-- `write_size_` -/
  writeSize : Nat
  /-- The `cur_size_` bytes behind `current_`. -/
  current : Option (List UInt8)
  /-- `current_offset_` -/
  currentOffset : Nat
  /-- `has_tx_timer_` -/
  hasTxTimer : Bool
  /-- Whether `handle_` is polled for output. -/
  pollout : Bool
  /-- `total_sent_` -/
  totalSent : UInt64

/-- What `pgm_socket_.Send` comes to. -/
inductive SendStatus where
  /-- The packet was sent. -/
  | normal
  /-- `VSS_NOMEM` -/
  | rateLimited
  /-- `VSS_BUSY` -/
  | wouldBlock

/-- A call of `OutEvent`. -/
inductive SenderEvent where
  /-- The socket can be written to. -/
  | outEvent
  /-- `RestartOutput` -/
  | restartOutput
  /-- `TimerEvent(tx_timer_id)` -/
  | txTimer

/-- What is seen of a call. -/
structure Sent where
  /-- The batches that `Flush` gave, in order. -/
  batches : List (List UInt8)
  /-- The packet that was sent, if one was. -/
  packet : Option (List UInt8)

namespace PGMSender

variable {σ π : Type} (options : SenderOptions σ π)

/-- The locals of `OutEvent` while it fills a packet. -/
structure Filling (σ π : Type) where
  /-- The members. -/
  sender : PGMSender σ π
  /-- `offset` -/
  offset : UInt16
  /-- The first `bytes` bytes of `bf`. -/
  payload : List UInt8
  /-- The batches that `Flush` gave so far. -/
  batches : List (List UInt8)

/-- `bfsz` -/
def room : Nat := options.outBufferSize - headerSize

/-- `offset` once a message was read. -/
def marked (filling : Filling σ π) : UInt16 :=
  if kNonExistOffset = filling.offset &&& kNonExistOffset then
    UInt16.ofNat filling.payload.length ||| options.offsetMask
  else filling.offset

/-- A message that was read is serialised. -/
def take (filling : Filling σ π) (msg : List UInt8) (ioPipe : π) : Filling σ π :=
  let serialize := options.onIncrement.getD options.serialize
  { filling with
    sender :=
      { filling.sender with
        ioPipe := ioPipe
        serializer := serialize filling.sender.serializer msg }
    offset := marked options filling }

/-- The inner loop: up to so many messages are read; whether there was one. -/
def gather : Nat → Filling σ π → Filling σ π × Bool
  | 0, filling => (filling, false)
  | count + 1, filling =>
      match options.read filling.sender.ioPipe with
      | (none, ioPipe) =>
          ({ filling with sender := { filling.sender with ioPipe := ioPipe } }, false)
      | (some msg, ioPipe) => ((gather count (take options filling msg ioPipe)).1, true)

/-- As many bytes of the current batch as there is room for. -/
def copy (filling : Filling σ π) (batch : List UInt8) : Filling σ π :=
  let offset := filling.sender.currentOffset
  let wbytes := min (batch.length - offset) (room options - filling.payload.length)
  { filling with
    payload := filling.payload ++ (batch.drop offset).take wbytes
    sender :=
      if offset + wbytes ≥ batch.length then
        { filling.sender with current := none, currentOffset := 0 }
      else
        { filling.sender with currentOffset := offset + wbytes } }

/-- One pass of the loop that fills a packet. -/
def pass (filling : Filling σ π) : Pass (Filling σ π) (Filling σ π) :=
  if filling.payload.length < room options then
    match filling.sender.current with
    | some batch => .again (copy options filling batch)
    | none =>
        let (filling, available) := gather options kMaxMessagePerTime filling
        if available then
          let (batch, serializer) := options.flush filling.sender.serializer
          .again (copy options
            { filling with
              sender := { filling.sender with serializer := serializer, current := some batch }
              batches := filling.batches ++ [batch] } batch)
        else .leave filling
  else .leave filling

variable (sender : PGMSender σ π)

/-- `OutEvent` when it begins to fill a packet. -/
def start : Filling σ π := ⟨sender, kNonExistOffset ||| options.offsetMask, [], []⟩

/-- The packet is made of what was filled in. -/
def packed (filling : Filling σ π) : PGMSender σ π :=
  { filling.sender with
    writeSize := headerSize + filling.payload.length
    outBuffer := datagram filling.offset filling.sender.nextIndex filling.payload
    nextIndex := filling.sender.nextIndex + 1 }

/-- The end of `OutEvent`: the packet is sent, or is kept for later. -/
def send (status : SendStatus) : Option (List UInt8) × PGMSender σ π :=
  let sender :=
    if sender.hasTxTimer then { sender with pollout := true, hasTxTimer := false } else sender
  match status with
  | .normal =>
      (some sender.outBuffer,
        { sender with
          totalSent := sender.totalSent + UInt64.ofNat sender.writeSize
          writeSize := 0 })
  | .rateLimited => (none, { sender with pollout := false, hasTxTimer := true })
  | .wouldBlock => (none, sender)

/-- `OutEvent`, unless it takes more passes than `fuel` to fill a packet. -/
def outEvent (fuel : Nat) (status : SendStatus) : Option (Sent × PGMSender σ π) :=
  if sender.writeSize = 0 then do
    let filling ← run (pass options) fuel (start options sender)
    if filling.payload = [] then
      return (⟨filling.batches, none⟩, { filling.sender with pollout := false })
    else
      let (packet, sender) := send (packed filling) status
      return (⟨filling.batches, packet⟩, sender)
  else
    let (packet, sender) := send sender status
    return (⟨[], packet⟩, sender)

/-- What each event does before it comes to `OutEvent`. -/
def raised : SenderEvent → PGMSender σ π
  | .outEvent => sender
  | .restartOutput => { sender with pollout := true }
  | .txTimer => { sender with hasTxTimer := false, pollout := true }

end PGMSender

end FlashForwarder
