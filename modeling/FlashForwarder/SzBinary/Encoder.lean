import FlashForwarder.SzBinary.Framing
import Mathlib.Data.Vector.Defs

/-!
# The session encoder

`szBinary_encoder_t` queues session messages in one of two buffers and seals each as it is
queued.  It finds the integers to swap, and the bytes to sum, at the front of the waiting
buffer, which is where the message lies only when nothing else is waiting.
-/

namespace FlashForwarder

open ProgramLoop

/-- `MSG_TYPE` -/
inductive MsgType where
  | logon
  | logout
  | heartbeat
  | others
  deriving DecidableEq, Repr

/-- One of the two elements of `buffer_`. -/
inductive Side where
  | first
  | second
  deriving DecidableEq, Repr

/-- The members of `szBinary_encoder_t`. -/
structure SzBinaryEncoder where
  /-- `buffer_[0]` -/
  buffer0 : List UInt8
  /-- `buffer_[1]` -/
  buffer1 : List UInt8
  /-- `write_buffer_ptr_` -/
  writeBufferPtr : Side
  /-- `wait_buffer_ptr_` -/
  waitBufferPtr : Side
  deriving DecidableEq, Repr

namespace SzBinaryEncoder

/-- The encoder as constructed. -/
def fresh : SzBinaryEncoder := ⟨[], [], .second, .first⟩

/-- `reset` -/
def reset (_ : SzBinaryEncoder) : SzBinaryEncoder := ⟨[], [], .second, .first⟩

/-- The buffer behind a pointer. -/
def buffer (encoder : SzBinaryEncoder) : Side → List UInt8
  | .first => encoder.buffer0
  | .second => encoder.buffer1

/-- Replace the buffer behind a pointer. -/
def setBuffer (encoder : SzBinaryEncoder) (side : Side) (bytes : List UInt8) : SzBinaryEncoder :=
  match side with
  | .first => { encoder with buffer0 := bytes }
  | .second => { encoder with buffer1 := bytes }

/-- `*wait_buffer_ptr_` -/
def waiting (encoder : SzBinaryEncoder) : List UInt8 := encoder.buffer encoder.waitBufferPtr

/-- Rewrite the host integers at the given offsets in network order; all are loaded before the
first is stored. -/
def swapIntegers (bytes : List UInt8) (offsets : List Nat) : List UInt8 :=
  (offsets.map fun offset => (offset, loadUint32 bytes offset)).foldl
    (fun swapped entry => storeUint32 swapped entry.1 entry.2) bytes

/-- The waiting bytes after `content` is appended, the integers of the struct laid over the
buffer's start are swapped, and the sum of the first `size` bytes is appended. -/
def sealFront (offsets : List Nat) (waiting content : List UInt8) : List UInt8 :=
  let swapped := swapIntegers (waiting ++ content) offsets
  swapped ++ putUint32 (generateCheckSum (swapped.take content.length))

/-- The offsets of `MsgType`, `BodyLength` and `HeartBtInt` in `SZB_Logon`. -/
def logonOffsets : List Nat := [0, 4, 48]

/-- The offsets of `MsgType`, `BodyLength` and `SessionStatus` in `SZB_Logout`. -/
def logoutOffsets : List Nat := [0, 4, 8]

/-- The offsets of `MsgType` and `BodyLength` in `SZB_Heartbeat`. -/
def heartbeatOffsets : List Nat := [0, 4]

/-- The bytes waiting after `encode`. -/
def encoded (waiting content : List UInt8) : MsgType → List UInt8
  | .logon => sealFront logonOffsets waiting content
  | .logout => sealFront logoutOffsets waiting content
  | .heartbeat => sealFront heartbeatOffsets waiting content
  | .others => waiting ++ content

/-- `encode`; the `default` branch, for a type outside `MSG_TYPE`, does nothing. -/
def encode (encoder : SzBinaryEncoder) (content : List UInt8) (type : MsgType) :
    SzBinaryEncoder :=
  encoder.setBuffer encoder.waitBufferPtr (encoded encoder.waiting content type)

/-- What `flush` leaves behind. -/
structure Flushed where
  /-- The bytes behind `*content`. -/
  content : List UInt8
  /-- `*size`, an `int` -/
  size : Int
  /-- The encoder afterwards. -/
  encoder : SzBinaryEncoder

/-- `flush`: the waiting buffer is handed out and the other one, emptied, takes its place. -/
def flush (encoder : SzBinaryEncoder) : Flushed where
  content := encoder.waiting
  size := toInt32 encoder.waiting.length
  encoder :=
    { encoder.setBuffer encoder.writeBufferPtr [] with
      writeBufferPtr := encoder.waitBufferPtr
      waitBufferPtr := encoder.writeBufferPtr }

/-- The byte run that a flush hands out. -/
def Flushed.run (flushed : Flushed) : List UInt8 := flushed.content.take flushed.size.toNat

@[simp] theorem reset_eq_fresh (encoder : SzBinaryEncoder) : encoder.reset = fresh := rfl

@[simp] theorem waiting_fresh : fresh.waiting = [] := rfl

@[simp] theorem waiting_encode (encoder : SzBinaryEncoder) (content : List UInt8)
    (type : MsgType) :
    (encoder.encode content type).waiting = encoded encoder.waiting content type := by
  obtain ⟨buffer0, buffer1, write, wait⟩ := encoder
  cases wait <;> rfl

@[simp] theorem waiting_flush (encoder : SzBinaryEncoder) :
    encoder.flush.encoder.waiting = [] := by
  obtain ⟨buffer0, buffer1, write, wait⟩ := encoder
  cases write <;> rfl

end SzBinaryEncoder

/-! ## Session messages -/

/-- A session message, field by field; signed integers are held by their bits. -/
inductive SessionMessage where
  /-- `SZB_Logon` -/
  | logon (msgType : UInt32) (senderCompID targetCompID : List.Vector UInt8 20)
      (heartBtInt : UInt32) (password : List.Vector UInt8 16)
      (defaultApplVerID : List.Vector UInt8 32)
  /-- `SZB_Logout` -/
  | logout (msgType : UInt32) (sessionStatus : UInt32) (text : List.Vector UInt8 200)
  /-- `SZB_Heartbeat` -/
  | heartbeat (msgType : UInt32)

namespace SessionMessage

/-- The `MsgType` field. -/
def msgType : SessionMessage → UInt32
  | logon msgType .. => msgType
  | logout msgType .. => msgType
  | heartbeat msgType => msgType

/-- The type the message is encoded with. -/
def type : SessionMessage → MsgType
  | logon .. => .logon
  | logout .. => .logout
  | heartbeat .. => .heartbeat

/-- The bytes after the header, with the integer field written by `word`. -/
def bodyWith (word : UInt32 → List UInt8) : SessionMessage → List UInt8
  | logon _ senderCompID targetCompID heartBtInt password defaultApplVerID =>
      senderCompID.toList ++ (targetCompID.toList ++ (word heartBtInt ++
        (password.toList ++ defaultApplVerID.toList)))
  | logout _ sessionStatus text => word sessionStatus ++ text.toList
  | heartbeat _ => []

/-- `sizeof` minus the header. -/
def bodyLength : SessionMessage → Nat
  | logon .. => 92
  | logout .. => 204
  | heartbeat .. => 0

/-- The packed struct in host order. -/
def packed (message : SessionMessage) : List UInt8 :=
  hostUint32 message.msgType ++ (hostUint32 (UInt32.ofNat message.bodyLength) ++
    message.bodyWith hostUint32)

theorem length_bodyWith {word : UInt32 → List UInt8} (four : ∀ value, (word value).length = 4)
    (message : SessionMessage) : (message.bodyWith word).length = message.bodyLength := by
  cases message <;> simp [bodyWith, bodyLength, four]

theorem bodyLength_small (message : SessionMessage) : message.bodyLength < 205 := by
  cases message <;> simp [bodyLength]

@[simp] theorem length_packed (message : SessionMessage) :
    message.packed.length = 8 + message.bodyLength := by
  simp [packed, length_bodyWith length_hostUint32]
  omega

/-- The message as the frame it is meant to become. -/
def frame (message : SessionMessage) : Frame where
  msgType := message.msgType
  body := message.bodyWith putUint32
  checksum := generateCheckSum (putUint32 message.msgType ++
    (putUint32 (UInt32.ofNat message.bodyLength) ++ message.bodyWith putUint32))
  short := by
    have := message.bodyLength_small
    rw [length_bodyWith length_putUint32]
    omega

@[simp] theorem length_body_frame (message : SessionMessage) :
    message.frame.body.length = message.bodyLength := length_bodyWith length_putUint32 message

theorem covered_frame (message : SessionMessage) :
    message.frame.covered = putUint32 message.msgType ++
      (putUint32 (UInt32.ofNat message.bodyLength) ++ message.bodyWith putUint32) := by
  rw [Frame.covered, length_body_frame]
  rfl

theorem genuine_frame (message : SessionMessage) : message.frame.Genuine := by
  rw [Frame.Genuine, covered_frame]
  rfl

end SessionMessage

namespace SzBinaryEncoder

/-! ## One message on an empty buffer -/

/-- A struct as successive stretches of plain bytes, each followed by an integer, and the bytes
after the last integer. -/
def render (word : UInt32 → List UInt8) (back : List UInt8) :
    List (List UInt8 × UInt32) → List UInt8
  | [] => back
  | (plain, value) :: fields => plain ++ (word value ++ render word back fields)

/-- The offsets and values of the integers of a struct that starts at `start`. -/
def integers (start : Nat) : List (List UInt8 × UInt32) → List (Nat × UInt32)
  | [] => []
  | (plain, value) :: fields =>
      (start + plain.length, value) :: integers (start + plain.length + 4) fields

private theorem load_integers {bytes back : List UInt8} (front : List UInt8)
    {fields : List (List UInt8 × UInt32)} {start : Nat} (at_ : front.length = start)
    (shape : bytes = front ++ render hostUint32 back fields) :
    ((integers start fields).map Prod.fst).map (fun offset => (offset, loadUint32 bytes offset)) =
      integers start fields := by
  induction fields generalizing front start with
  | nil => rfl
  | cons field fields ih =>
      obtain ⟨plain, value⟩ := field
      simp only [integers, List.map_cons]
      congr 1
      · have position : (front ++ plain).length = start + plain.length := by simp [at_]
        rw [← loadUint32_host position value (render hostUint32 back fields), shape]
        simp [render]
      · exact ih (front ++ (plain ++ hostUint32 value)) (by simp [at_]; omega)
          (by simp [shape, render])

private theorem store_integers (front : List UInt8) {back : List UInt8}
    {fields : List (List UInt8 × UInt32)} {start : Nat} (at_ : front.length = start) :
    (integers start fields).foldl (fun swapped entry => storeUint32 swapped entry.1 entry.2)
        (front ++ render hostUint32 back fields) =
      front ++ render putUint32 back fields := by
  induction fields generalizing front start with
  | nil => rfl
  | cons field fields ih =>
      obtain ⟨plain, value⟩ := field
      have position : (front ++ plain).length = start + plain.length := by simp [at_]
      have stored := storeUint32_append position (length_hostUint32 value) value
        (render hostUint32 back fields)
      have moved : (front ++ (plain ++ putUint32 value)).length = start + plain.length + 4 := by
        simp [at_]
        omega
      have later := ih _ moved
      simp only [List.append_assoc] at stored later
      simp only [integers, render, List.foldl_cons, stored]
      exact later

/-- The integers of a struct that lies at the front of the buffer are swapped in place. -/
theorem swapIntegers_render (back : List UInt8) (fields : List (List UInt8 × UInt32)) :
    swapIntegers (render hostUint32 back fields) ((integers 0 fields).map Prod.fst) =
      render putUint32 back fields := by
  have loads : ((integers 0 fields).map Prod.fst).map
      (fun offset => (offset, loadUint32 (render hostUint32 back fields) offset)) =
        integers 0 fields :=
    load_integers [] rfl rfl
  rw [swapIntegers, loads]
  exact store_integers [] rfl

theorem sealFront_render (back : List UInt8) (fields : List (List UInt8 × UInt32)) :
    sealFront ((integers 0 fields).map Prod.fst) [] (render hostUint32 back fields) =
      render putUint32 back fields ++
        putUint32 (generateCheckSum (render putUint32 back fields)) := by
  have lengths :
      (render hostUint32 back fields).length = (render putUint32 back fields).length := by
    induction fields with
    | nil => rfl
    | cons field fields ih => simp [render, ih]
  rw [sealFront, List.nil_append, swapIntegers_render, lengths, List.take_length]

/-- A message encoded when nothing is waiting becomes its frame. -/
theorem encoded_nil (message : SessionMessage) :
    encoded [] message.packed message.type = message.frame.bytes := by
  rw [Frame.bytes, SessionMessage.genuine_frame, SessionMessage.covered_frame]
  cases message with
  | logon msgType sender target heartBtInt password version =>
      have sealed := sealFront_render (password.toList ++ version.toList)
        [([], msgType), ([], 92), (sender.toList ++ target.toList, heartBtInt)]
      simpa [render, integers, encoded, logonOffsets, SessionMessage.packed, SessionMessage.type,
        SessionMessage.msgType, SessionMessage.bodyWith, SessionMessage.bodyLength] using sealed
  | logout msgType sessionStatus text =>
      exact sealFront_render text.toList [([], msgType), ([], 204), ([], sessionStatus)]
  | heartbeat msgType =>
      exact sealFront_render [] [([], msgType), ([], 0)]

/-! ## Runs of the encoder -/

/-- A call on the encoder. -/
inductive EncoderCall where
  /-- `encode` of a packed session message -/
  | encode (message : SessionMessage)
  /-- `flush` -/
  | flush

/-- The byte runs handed out by the flushes of a sequence of calls. -/
def flushedRuns (encoder : SzBinaryEncoder) : List EncoderCall → List (List UInt8)
  | [] => []
  | .encode message :: calls =>
      flushedRuns (encoder.encode message.packed message.type) calls
  | .flush :: calls => encoder.flush.run :: flushedRuns encoder.flush.encoder calls

/-- The messages queued at each flush, where `queued` wait already. -/
def batches (queued : List SessionMessage) : List EncoderCall → List (List SessionMessage)
  | [] => []
  | .encode message :: calls => batches (queued ++ [message]) calls
  | .flush :: calls => queued :: batches [] calls

/-- The frames of the messages that were encoded before the last flush. -/
def expectedFrames (calls : List EncoderCall) : List Frame :=
  (batches [] calls).flatten.map SessionMessage.frame

/-- The flushed runs are one frame per encoded message, and however they are cut the decoder
hands each on. -/
def EmitsFrames (encoder : SzBinaryEncoder) (calls : List EncoderCall) : Prop :=
  (encoder.flushedRuns calls).flatten = SzBinaryDecoder.stream (expectedFrames calls) ∧
    ∀ chunks, SzBinaryDecoder.joined chunks = (encoder.flushedRuns calls).flatten →
      (∀ chunk ∈ chunks, chunk.bytes.length < 2 ^ 31) →
      SzBinaryDecoder.Feeds .fresh chunks (List.replicate chunks.length 0)
        ((expectedFrames calls).map Frame.bytes) .fresh

/-- No two messages are queued at one flush. -/
def FlushedSingly (calls : List EncoderCall) : Prop :=
  ∀ batch ∈ batches [] calls, batch.length ≤ 1

theorem mem_of_mem_batches {calls : List EncoderCall} {queued batch : List SessionMessage}
    (member : batch ∈ batches queued calls) :
    ∀ message ∈ batch, message ∈ queued ∨ .encode message ∈ calls := by
  induction calls generalizing queued with
  | nil => simp [batches] at member
  | cons call calls ih =>
      intro message listed
      cases call with
      | encode next =>
          have earlier := ih member message listed
          simp only [List.mem_append, List.mem_singleton] at earlier
          rcases earlier with (earlier | rfl) | later
          · exact Or.inl earlier
          · exact Or.inr (by simp)
          · exact Or.inr (by simp [later])
      | flush =>
          simp only [batches, List.mem_cons] at member
          rcases member with rfl | member
          · exact Or.inl listed
          · simpa using Or.inr (ih member message listed)

/-- The bytes that wait once messages are queued on an empty buffer. -/
def queuedBytes (queued : List SessionMessage) : List UInt8 :=
  queued.foldl (fun waiting message => encoded waiting message.packed message.type) []

/-- A run depends on the messages queued at its flush and on nothing earlier. -/
theorem flushedRuns_eq (encoder : SzBinaryEncoder) (calls : List EncoderCall)
    (queued : List SessionMessage) (waiting : encoder.waiting = queuedBytes queued) :
    encoder.flushedRuns calls = (batches queued calls).map fun batch =>
      (queuedBytes batch).take (toInt32 (queuedBytes batch).length).toNat := by
  induction calls generalizing encoder queued with
  | nil => rfl
  | cons call calls ih =>
      cases call with
      | encode message =>
          exact ih _ _ (by simp [waiting, queuedBytes])
      | flush =>
          rw [flushedRuns, batches, List.map_cons, ih _ [] (waiting_flush encoder)]
          simp [Flushed.run, flush, waiting]

/-- The bytes of a batch as they should be. -/
def batchStream (batch : List SessionMessage) : List UInt8 :=
  SzBinaryDecoder.stream (batch.map SessionMessage.frame)

theorem stream_expectedFrames (calls : List EncoderCall) :
    SzBinaryDecoder.stream (expectedFrames calls) =
      ((batches [] calls).map batchStream).flatten := by
  rw [expectedFrames]
  induction batches [] calls with
  | nil => rfl
  | cons batch rest ih =>
      rw [List.flatten_cons, List.map_append, SzBinaryDecoder.stream_append, ih]
      rfl

theorem run_single {batch : List SessionMessage} (single : batch.length ≤ 1) :
    (queuedBytes batch).take (toInt32 (queuedBytes batch).length).toNat = batchStream batch := by
  rcases batch with _ | ⟨message, _ | ⟨second, rest⟩⟩
  · rfl
  · have bytes : queuedBytes [message] = message.frame.bytes := encoded_nil message
    have small := message.frame.length_lt
    rw [bytes, toInt32_natCast small, Int.toNat_natCast, List.take_length]
    simp [batchStream]
  · simp at single

/-! ## What a second message finds -/

theorem length_swapIntegers (bytes : List UInt8) (offsets : List Nat) :
    (swapIntegers bytes offsets).length = bytes.length := by
  have stored : ∀ (entries : List (Nat × UInt32)) (start : List UInt8),
      (entries.foldl (fun swapped entry => storeUint32 swapped entry.1 entry.2) start).length =
        start.length := by
    intro entries
    induction entries with
    | nil => simp
    | cons entry entries ih => simp [ih]
  exact stored _ _

/-- The integers that `encode` swaps lie in the first twelve bytes or at 48. -/
theorem getElem?_swapIntegers {bytes : List UInt8} {offsets : List Nat} {position : Nat}
    (away : ∀ offset ∈ offsets, position < offset ∨ offset + 4 ≤ position) :
    (swapIntegers bytes offsets)[position]? = bytes[position]? := by
  have stored : ∀ (entries : List (Nat × UInt32)) (start : List UInt8),
      (∀ entry ∈ entries, position < entry.1 ∨ entry.1 + 4 ≤ position) →
      (entries.foldl (fun swapped entry => storeUint32 swapped entry.1 entry.2) start)[position]? =
        start[position]? := by
    intro entries
    induction entries with
    | nil => intros; rfl
    | cons entry entries ih =>
        intro start apart
        rw [List.foldl_cons, ih _ fun other member => apart other (by simp [member])]
        exact getElem?_storeUint32 _ _ (apart entry (by simp))
  apply stored
  intro entry member
  obtain ⟨offset, listed, rfl⟩ := List.mem_map.mp member
  exact away offset listed

/-- A message adds its frame's length, whatever waits before it. -/
theorem length_encoded (waiting : List UInt8) (message : SessionMessage) :
    (encoded waiting message.packed message.type).length =
      waiting.length + message.frame.bytes.length := by
  cases message <;>
    simp [encoded, SessionMessage.type, sealFront, length_swapIntegers] <;> omega

/-- A position that no message swaps keeps its byte when a message is queued behind it. -/
theorem getElem?_encoded {waiting : List UInt8} (message : SessionMessage) {position : Nat}
    (front : 12 ≤ position) (seam : position < 48 ∨ 52 ≤ position)
    (inside : position < waiting.length + 8) :
    (encoded waiting message.packed message.type)[position]? =
      (waiting ++ message.packed)[position]? := by
  have apart : ∀ offset ∈ logonOffsets ++ logoutOffsets ++ heartbeatOffsets,
      position < offset ∨ offset + 4 ≤ position := by
    simp [logonOffsets, logoutOffsets, heartbeatOffsets]
    omega
  have sealed : ∀ offsets, (∀ offset ∈ offsets, position < offset ∨ offset + 4 ≤ position) →
      (sealFront offsets waiting message.packed)[position]? =
        (waiting ++ message.packed)[position]? := by
    intro offsets away
    rw [sealFront, List.getElem?_append_left (by simp [length_swapIntegers]; omega)]
    exact getElem?_swapIntegers away
  cases message with
  | logon => exact sealed _ fun offset listed => apart offset (by simp [listed])
  | logout => exact sealed _ fun offset listed => apart offset (by simp [listed])
  | heartbeat => exact sealed _ fun offset listed => apart offset (by simp [listed])

/-- Queuing further messages keeps such a byte too. -/
theorem getElem?_queue (messages : List SessionMessage) {waiting : List UInt8} {position : Nat}
    (front : 12 ≤ position) (seam : position < 48 ∨ 52 ≤ position)
    (inside : position < waiting.length) :
    (messages.foldl (fun waiting message => encoded waiting message.packed message.type)
      waiting)[position]? = waiting[position]? := by
  induction messages generalizing waiting with
  | nil => rfl
  | cons message messages ih =>
      rw [List.foldl_cons, ih (by rw [length_encoded]; omega),
        getElem?_encoded message front seam (by omega), List.getElem?_append_left inside]

/-- The second of two queued messages keeps its type in host order. -/
theorem second_in_host_order (first second : SessionMessage) (rest : List SessionMessage)
    (index : Nat) (small : index < 4) :
    (queuedBytes (first :: second :: rest))[first.frame.bytes.length + index]? =
      (hostUint32 second.msgType)[index]? := by
  have place : first.frame.bytes.length = 12 ∨ first.frame.bytes.length = 104 ∨
      first.frame.bytes.length = 216 := by
    cases first <;> simp [SessionMessage.bodyLength]
  have start : queuedBytes (first :: second :: rest) =
      rest.foldl (fun waiting message => encoded waiting message.packed message.type)
        (encoded first.frame.bytes second.packed second.type) := by
    rw [← encoded_nil first]
    rfl
  have room := second.frame.length_bytes
  rw [start, getElem?_queue rest (by omega) (by omega) (by rw [length_encoded]; omega),
    getElem?_encoded second (by omega) (by omega) (by omega),
    List.getElem?_append_right (by omega), Nat.add_sub_cancel_left, SessionMessage.packed,
    List.getElem?_append_left (by simpa using small)]

theorem length_queuedBytes (batch : List SessionMessage) :
    (queuedBytes batch).length = (batchStream batch).length := by
  have queue : ∀ (messages : List SessionMessage) (waiting : List UInt8),
      (messages.foldl (fun waiting message => encoded waiting message.packed message.type)
        waiting).length = waiting.length + (batchStream messages).length := by
    intro messages
    induction messages with
    | nil => intros; rfl
    | cons message messages ih =>
        intro waiting
        rw [List.foldl_cons, ih, length_encoded]
        simp [batchStream, Nat.add_assoc]
  exact (queue batch []).trans (Nat.zero_add _)

/-- Two queued messages leave as frames only when the second one's type reads the same in both
byte orders. -/
theorem host_eq_put_of_run {first second : SessionMessage} {rest : List SessionMessage}
    (run : (queuedBytes (first :: second :: rest)).take
      (toInt32 (queuedBytes (first :: second :: rest)).length).toNat =
        batchStream (first :: second :: rest)) :
    hostUint32 second.msgType = putUint32 second.msgType := by
  have lengths := congrArg List.length run
  rw [List.length_take, ← length_queuedBytes] at lengths
  rw [List.take_of_length_le (by omega)] at run
  apply List.ext_getElem?
  intro index
  by_cases small : index < 4
  · rw [← second_in_host_order first second rest index small, run]
    simp only [batchStream, List.map_cons, SzBinaryDecoder.stream_cons]
    rw [List.getElem?_append_right (by omega), Nat.add_sub_cancel_left, Frame.bytes,
      SessionMessage.covered_frame, List.append_assoc, List.append_assoc, 
      List.getElem?_append_left (by simpa using small)]
  · rw [List.getElem?_eq_none (by simpa using small), List.getElem?_eq_none (by simpa using small)]

/-! ## Results -/

/-- Runs no longer than they should be, and right when joined, are each right. -/
theorem eq_of_flatten_eq {α β : Type*} {left right : α → List β} (items : List α)
    (shorter : ∀ item, (left item).length ≤ (right item).length)
    (equal : (items.map left).flatten = (items.map right).flatten) :
    ∀ item ∈ items, left item = right item := by
  induction items with
  | nil => simp
  | cons item items ih =>
      simp only [List.map_cons, List.flatten_cons] at equal
      have tails : (items.map left).flatten.length ≤ (items.map right).flatten.length := by
        clear ih equal
        induction items with
        | nil => simp
        | cons other items ih =>
            have := shorter other
            simp only [List.map_cons, List.flatten_cons, List.length_append]
            omega
      have lengths := congrArg List.length equal
      simp only [List.length_append] at lengths
      have := shorter item
      obtain ⟨here, later⟩ := List.append_inj equal (by omega)
      simpa [here] using ih later

/-- The encoder emits one frame per message if messages are flushed one by one, and only then
unless some `MsgType` reads the same in both byte orders. -/
theorem emits_frames_of_flushed_singly (start : SzBinaryEncoder)
    (clean : start = fresh ∨ ∃ encoder : SzBinaryEncoder, start = encoder.reset)
    (calls : List EncoderCall) :
    (FlushedSingly calls → EmitsFrames start calls) ∧
      ((∀ message, .encode message ∈ calls →
          hostUint32 message.msgType ≠ putUint32 message.msgType) →
        EmitsFrames start calls → FlushedSingly calls) := by
  have startFresh : start = fresh := by
    rcases clean with rfl | ⟨encoder, rfl⟩ <;> rfl
  subst startFresh
  have runs := flushedRuns_eq fresh calls [] rfl
  have genuine : ∀ frame ∈ expectedFrames calls, frame.Genuine := by
    intro frame member
    obtain ⟨message, _, rfl⟩ := List.mem_map.mp member
    exact message.genuine_frame
  constructor
  · intro single
    have bytes : (fresh.flushedRuns calls).flatten =
        SzBinaryDecoder.stream (expectedFrames calls) := by
      rw [runs, stream_expectedFrames,
        List.map_congr_left fun batch member => run_single (single batch member)]
    exact ⟨bytes, fun chunks cut small =>
      SzBinaryDecoder.feeds_whole genuine small (cut.trans bytes)⟩
  · rintro swaps ⟨bytes, _⟩ batch member
    rw [runs, stream_expectedFrames] at bytes
    have run := eq_of_flatten_eq (batches [] calls) (fun batch => by
      rw [List.length_take, length_queuedBytes]
      exact Nat.min_le_right _ _) bytes batch member
    rcases batch with _ | ⟨first, _ | ⟨second, rest⟩⟩
    · simp
    · simp
    · have encoded := mem_of_mem_batches member second (by simp)
      exact absurd (host_eq_put_of_run run) (swaps second (by simpa using encoded))

theorem emits_frames_of_flushed_singly_heartbeats :
    EmitsFrames fresh [.encode (.heartbeat 3), .flush, .encode (.heartbeat 3), .flush] ∧
      (EmitsFrames fresh [.encode (.heartbeat 3), .flush] →
        FlushedSingly [.encode (.heartbeat 3), .flush]) :=
  ⟨(emits_frames_of_flushed_singly fresh (Or.inl rfl) _).1 (by simp [FlushedSingly, batches]),
    (emits_frames_of_flushed_singly fresh (Or.inl rfl) _).2 (by
      intro message member
      obtain rfl : message = .heartbeat 3 := by simpa using member
      decide)⟩

/-- The second of two queued heartbeats leaves in host order. -/
theorem queued_heartbeats_not_framed :
    ¬EmitsFrames fresh [.encode (.heartbeat 3), .encode (.heartbeat 3), .flush] := by
  rintro ⟨bytes, _⟩
  revert bytes
  decide

end SzBinaryEncoder

end FlashForwarder
