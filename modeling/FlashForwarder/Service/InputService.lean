import FlashForwarder.Library.Asynchronous
import FlashForwarder.Library.Transition
import FlashForwarder.SzBinary.Decoder
import FlashForwarder.SzBinary.Encoder
import Mathlib.Logic.Function.Basic

/-!
# The input service

`sz_binary_input_service_t` connects, logs on and reads, and keeps two timers on its `socket_t`.
The two call each other from their handlers, which run one at a time on the thread of the socket's
`io_service`, so they are one machine here: `STREAM` with `SIN`, from `run` on.  What a handler does
to the encoder's buffers, to the socket and to the timers is put on record as it happens.
-/

namespace FlashForwarder

open Asynchronous SzBinaryDecoder

/-- `TIMER_ID` -/
inductive TimerID where
  /-- `RECONNECT_TIMER` -/
  | reconnect
  /-- `HEARTBEAT_TIMER` -/
  | heartbeat
  deriving DecidableEq, Repr

/-- The value of an `error_code` that is set. -/
abbrev ErrorCode := { code : Int // code ≠ 0 }

/-- What the handler of an asynchronous operation is told. -/
inductive Completion (α : Type) where
  /-- `operation_aborted` -/
  | aborted
  /-- Another error. -/
  | failed (code : ErrorCode)
  /-- No error. -/
  | done (result : α)

/-- An operation can complete as aborted only if it is superseded. -/
def Completion.Possible {α : Type} (superseded : Bool) : Completion α → Prop
  | .aborted => superseded = true
  | _ => True

/-- What `resolve` finds. -/
inductive Resolution where
  /-- Some endpoint. -/
  | found
  /-- None, and the reason. -/
  | failed (code : ErrorCode)

/-- What `async_write` was handed: a buffer of the encoder, and the bytes that lay in it. -/
structure Writing where
  /-- The element of `buffer_`. -/
  side : Side
  /-- The bytes to send. -/
  content : List UInt8
  deriving DecidableEq, Repr

/-- A thing the service did. -/
inductive Effect where
  /-- The encoder cleared a buffer, or appended to it. -/
  | touched (side : Side)
  /-- `async_write` was started. -/
  | sent (writing : Writing)
  /-- The handler of a write was called. -/
  | written (writing : Writing)
  /-- A timer was set. -/
  | timerSet (timerID : TimerID) (milli : Int)
  /-- `sendHeartBeat` was called. -/
  | heartbeat
  /-- A read or write error was handled, or a logout received. -/
  | ended
  /-- A logon was received. -/
  | logon
  deriving DecidableEq

/-- The members of `socket_t` that a `SIN` service uses. -/
structure Socket where
  /-- Whether `socket_input_ptr_` holds a socket. -/
  input : Bool
  /-- The connects that were started. -/
  connects : Operations Unit
  /-- The reads that were started; all of them fill `inputBuffer_`. -/
  reads : Operations Unit
  /-- The writes that were started. -/
  writes : Operations Writing
  /-- `timers_map_` -/
  timers : TimerID → Option Timer

namespace Socket

/-- The socket after `init`. -/
def init : Socket := ⟨true, .none, .none, .none, fun _ => none⟩

/-- The socket is closed: every operation on it is superseded. -/
def close (socket : Socket) : Socket :=
  { socket with
    connects := socket.connects.supersede
    reads := socket.reads.supersede
    writes := socket.writes.supersede }

/-- The entry for a timer in `timers_map_` is replaced. -/
def setEntry (socket : Socket) (timerID : TimerID) (timer : Timer) : Socket :=
  { socket with timers := Function.update socket.timers timerID (some timer) }

@[simp] theorem timers_setEntry (socket : Socket) (timerID : TimerID) (timer : Timer) :
    (socket.setEntry timerID timer).timers timerID = some timer := Function.update_self ..

theorem timers_setEntry_of_ne (socket : Socket) {timerID other : TimerID} (ne : other ≠ timerID)
    (timer : Timer) : (socket.setEntry timerID timer).timers other = socket.timers other :=
  Function.update_of_ne ne ..

end Socket

/-- The members of `sz_binary_input_service_t`, its socket among them. -/
structure InputService where
  /-- `*encoder_ptr_` -/
  encoder : SzBinaryEncoder
  /-- `*decoder_ptr_` -/
  decoder : SzBinaryDecoder
  /-- `lastReceiveTime_`, in nanoseconds since the clock's epoch. -/
  lastReceiveTime : Int
  /-- `*socket_` -/
  socket : Socket
  /-- Whether a null `socket_input_ptr_` has been followed. -/
  undefined : Bool
  /-- Everything done so far. -/
  history : List Effect

/-- The size of `inputBuffer_`. -/
def maxBufferSize : Nat := 8192

namespace InputService

/-- The service after `init`. -/
def init : InputService := ⟨.fresh, .fresh, 0, .init, false, []⟩

/-- A text in a field of fixed length, with zeros behind it. -/
def padded (size : Nat) (text : List Char) : List.Vector UInt8 size :=
  .ofFn fun index => (text[index.val]?.map fun letter => UInt8.ofNat letter.toNat).getD 0

/-- `logonMsg_`, as `run` leaves it. -/
def logonMsg : SessionMessage :=
  .logon 1 (padded 20 ['z', 'h', 'e', 'n', 'g', 'f', 'a', 'n'])
    (padded 20 ['z', 'o', 'r', 'k', 'M', 'd', 'g', 'w']) 3
    (padded 16 ['h', 'e', 'h', 'e']) (padded 32 ['1', '.', '0', '0'])

/-- `heartBeat_`, as `run` leaves it. -/
def heartBeat : SessionMessage := .heartbeat 3

variable (service : InputService)

/-- The waits on a timer; there are none on one that is not in the map. -/
def entry (timerID : TimerID) : Timer := (service.socket.timers timerID).getD .fresh

/-- Put something on record. -/
def record (effect : Effect) : InputService :=
  { service with history := service.history ++ [effect] }

/-! ## `socket_t` -/

/-- `setTimer` -/
def setTimer (timerID : TimerID) (milli : Int) : InputService :=
  let timer :=
    match service.socket.timers timerID with
    | none => Timer.fresh
    | some timer => timer.cancel
  { service with socket := service.socket.setEntry timerID timer.wait }.record
    (.timerSet timerID milli)

/-- `cancelTimer` -/
def cancelTimer (timerID : TimerID) : InputService :=
  match service.socket.timers timerID with
  | none => service
  | some timer => { service with socket := service.socket.setEntry timerID timer.cancel }

/-- `async_read` -/
def asyncRead : InputService :=
  if service.socket.input then
    { service with socket.reads := service.socket.reads.start () }
  else { service with undefined := true }

/-- `async_write` -/
def asyncWrite (writing : Writing) : InputService :=
  if service.socket.input then
    { service with socket.writes := service.socket.writes.start writing }.record (.sent writing)
  else { service with undefined := true }

/-! ## The encoder -/

/-- `encoder_ptr_->encode` of a session message. -/
def encode (message : SessionMessage) : InputService :=
  { service with encoder := service.encoder.encode message.packed message.type }.record
    (.touched service.encoder.waitBufferPtr)

/-- `encoder_ptr_->reset` -/
def resetEncoder : InputService :=
  ({ service with encoder := service.encoder.reset }.record
    (.touched service.encoder.waitBufferPtr)).record (.touched service.encoder.writeBufferPtr)

/-! ## The service -/

/-- `doRead` -/
def doRead : InputService := service.asyncRead

/-- `doWrite` -/
def doWrite : InputService :=
  let flushed := service.encoder.flush
  ({ service with encoder := flushed.encoder }.record
    (.touched service.encoder.writeBufferPtr)).asyncWrite
      ⟨service.encoder.waitBufferPtr, flushed.run⟩

/-- `sendLogon` -/
def sendLogon : InputService := (service.encode logonMsg).doWrite

/-- `sendHeartBeat` -/
def sendHeartBeat : InputService := ((service.record .heartbeat).encode heartBeat).doWrite

/-- `handleConnect` -/
def handleConnect (errorcode : Int) : InputService :=
  if errorcode = 0 then service.sendLogon.doRead else service.setTimer .reconnect 3000

/-- `connect`, which `doConnect` calls; `resolution` is what `resolve` finds if it comes to that. -/
def connect (resolution : Resolution) : InputService :=
  if service.socket.input then
    match resolution with
    | .failed code => service.handleConnect code
    | .found =>
        let closed := service.socket.close
        { service with socket := { closed with connects := closed.connects.start () } }
  else service.handleConnect (-1)

/-- `connnectHandle`; the result is whether `no_delay` can be set.  If not, the socket is destroyed,
and what was started on it is superseded. -/
def connnectHandle : Completion Bool → InputService
  | .aborted => service
  | .failed code => service.handleConnect code
  | .done noDelay =>
      if service.socket.input then
        if noDelay then service.handleConnect 0
        else
          { service with
            socket := { service.socket.close with input := false } }.handleConnect 0
      else { service with undefined := true }

/-- `handlemessage_t` -/
def handlemessage (content : List UInt8) : InputService :=
  match (getUint32 content).toNat with
  | 1 => (service.record .logon).setTimer .heartbeat 3000
  | 2 => ((service.record .ended).cancelTimer .heartbeat).setTimer .reconnect 3000
  | _ => service

/-- A read that brings bytes: what they are, what `decode` leaves behind, and the time. -/
structure Received where
  /-- The bytes in `inputBuffer_`, with what lies around them. -/
  chunk : Chunk
  /-- What `decode` leaves behind; it calls `handlemessage_t` once for each buffer it hands on. -/
  decoded : Decoded
  /-- The clock, in nanoseconds. -/
  now : Int

/-- What `handleRead` and `handleWrite` do about an error. -/
def handleError : InputService :=
  ((service.record .ended).cancelTimer .heartbeat).setTimer .reconnect 3000

/-- `readHandle` and `handleRead` -/
def readHandle : Completion Received → InputService
  | .aborted => service
  | .failed _ => service.handleError
  | .done received =>
      let taken :=
        { service with lastReceiveTime := received.now, decoder := received.decoded.decoder }
      (received.decoded.handed.foldl handlemessage taken).doRead

/-- `writeHandle` and `handleWrite` -/
def writeHandle : Completion Unit → InputService
  | .aborted => service
  | .failed _ => service.handleError
  | .done _ => service

/-- Whether more than 3000 milliseconds have passed since the last read. -/
def silent (now : Int) : Bool := 3000 < (now - service.lastReceiveTime).tdiv 1000000

/-- `handleTimer` -/
def handleTimer (timerID : TimerID) (resolution : Resolution) (now : Int) : InputService :=
  match timerID with
  | .reconnect =>
      let reset := (service.cancelTimer .reconnect).resetEncoder
      { reset with decoder := reset.decoder.reset }.connect resolution
  | .heartbeat =>
      let set := service.setTimer .heartbeat 3000
      if service.silent now then set.sendHeartBeat else set

/-- `timerHandle`; a wait ends at the expiry or by a cancel, and with no other error. -/
def timerHandle (timerID : TimerID) (aborted : Bool) (resolution : Resolution) (now : Int) :
    InputService :=
  if aborted then service else service.handleTimer timerID resolution now

/-- `run` -/
def run (resolution : Resolution) : InputService := init.connect resolution

/-! ## Events -/

/-- What can happen next; `superseded` says which operation it happens to. -/
inductive Event where
  /-- A connect completes. -/
  | connected (superseded : Bool) (completion : Completion Bool)
  /-- A connect is refused by one endpoint, and tries the next. -/
  | refused (superseded : Bool)
  /-- A read completes. -/
  | read (superseded : Bool) (completion : Completion Received)
  /-- A write completes. -/
  | write (superseded : Bool) (writing : Writing) (completion : Completion Unit)
  /-- A timer expires. -/
  | expires (timerID : TimerID)
  /-- The handler of a wait is called. -/
  | timer (timerID : TimerID) (aborted : Bool) (resolution : Resolution) (now : Int)
  /-- The handler that `stop` has posted is called. -/
  | close

/-- An event happens to an operation that was started, and to nothing once behaviour is
undefined. -/
def Enabled (event : Event) : Prop :=
  service.undefined = false ∧
    match event with
    | .connected superseded completion =>
        () ∈ service.socket.connects.those superseded ∧ completion.Possible superseded
    | .refused superseded =>
        () ∈ service.socket.connects.those superseded ∧ service.socket.input = true
    | .read superseded completion =>
        () ∈ service.socket.reads.those superseded ∧ completion.Possible superseded ∧
          ∀ received, completion = .done received →
            received.chunk.bytes.length ≤ maxBufferSize ∧
              Decodes service.decoder received.chunk received.decoded
    | .write superseded writing completion =>
        writing ∈ service.socket.writes.those superseded ∧ completion.Possible superseded
    | .expires timerID => 0 < (service.entry timerID).waiting
    | .timer timerID true _ _ => 0 < (service.entry timerID).aborted
    | .timer timerID false _ _ => 0 < (service.entry timerID).expired
    | .close => True

/-- Something happens to the waits on a timer. -/
def onTimer (timerID : TimerID) (change : Timer → Timer) : InputService :=
  { service with socket := service.socket.setEntry timerID (change (service.entry timerID)) }

/-- What an event leads to. -/
def exec : Event → InputService
  | .connected superseded completion =>
      { service with socket.connects := service.socket.connects.complete superseded () }
        |>.connnectHandle completion
  | .refused superseded =>
      let closed :=
        { service.socket with
          connects := service.socket.connects.complete superseded () }.close
      { service with socket := { closed with connects := closed.connects.start () } }
  | .read superseded completion =>
      { service with socket.reads := service.socket.reads.complete superseded () }
        |>.readHandle completion
  | .write superseded writing completion =>
      { service with socket.writes := service.socket.writes.complete superseded writing }
        |>.record (.written writing) |>.writeHandle completion
  | .expires timerID => service.onTimer timerID Timer.expire
  | .timer timerID aborted resolution now =>
      (service.onTimer timerID (Timer.handled · aborted)).timerHandle timerID aborted resolution now
  | .close =>
      if service.socket.input then { service with socket := service.socket.close }
      else { service with undefined := true }

/-- The service when `run` has connected. -/
def Started : Prop := ∃ resolution, service = run resolution

/-- The runs of the service, with each event and the state in which it came. -/
abbrev Run : List (InputService × Event) → InputService → Prop :=
  Transition.Execution Started Enabled exec

/-- Events, each with the state in which it comes. -/
def trail (service : InputService) : List Event → List (InputService × Event)
  | [] => []
  | event :: events => (service, event) :: trail (service.exec event) events

/-- A logon frame without a body. -/
def logonFrame : Frame := { heartbeatFrame with msgType := 1, checksum := 1 }

/-- The service connects and is logged on. -/
def loggedOn : List Event :=
  [.connected false (.done true),
    .read false (.done ⟨⟨logonFrame.bytes, fun _ => 0⟩, ⟨0, .fresh, [logonFrame.bytes]⟩, 0⟩)]

theorem run_loggedOn : Run ((run .found).trail loggedOn) (loggedOn.foldl exec (run .found)) := by
  have started : Run [] (InputService.run .found) := .nil ⟨.found, rfl⟩
  have connected := started.step (.connected false (.done true)) ⟨rfl, by decide, trivial⟩
  have heard : Decodes fresh ⟨logonFrame.bytes, fun _ => 0⟩ ⟨0, fresh, [logonFrame.bytes]⟩ :=
    ⟨5, by decide⟩
  exact connected.step
    (.read false (.done ⟨⟨logonFrame.bytes, fun _ => 0⟩, ⟨0, .fresh, [logonFrame.bytes]⟩, 0⟩))
    ⟨rfl, by decide, trivial, by rintro _ ⟨⟩; exact ⟨by decide, heard⟩⟩

/-! ## Waits -/

variable {service}

@[simp] theorem entry_record (effect : Effect) (timerID : TimerID) :
    (service.record effect).entry timerID = service.entry timerID := rfl

@[simp] theorem entry_onTimer (timerID : TimerID) (change : Timer → Timer) :
    (service.onTimer timerID change).entry timerID = change (service.entry timerID) := by
  rw [entry, onTimer, Socket.timers_setEntry, Option.getD_some]

theorem entry_onTimer_of_ne {timerID other : TimerID} (ne : other ≠ timerID)
    (change : Timer → Timer) :
    (service.onTimer timerID change).entry other = service.entry other := by
  rw [entry, onTimer, Socket.timers_setEntry_of_ne _ ne]
  rfl

/-- To set a timer is to cancel it and to wait on it. -/
theorem setTimer_eq (timerID : TimerID) (milli : Int) :
    service.setTimer timerID milli =
      (service.onTimer timerID (·.cancel.wait)).record (.timerSet timerID milli) := by
  rw [setTimer, onTimer, entry]
  cases service.socket.timers timerID <;> rfl

@[simp] theorem entry_setTimer (timerID : TimerID) (milli : Int) :
    (service.setTimer timerID milli).entry timerID = (service.entry timerID).cancel.wait := by
  rw [setTimer_eq, entry_record, entry_onTimer]

theorem entry_setTimer_of_ne {timerID other : TimerID} (ne : other ≠ timerID) (milli : Int) :
    (service.setTimer timerID milli).entry other = service.entry other := by
  rw [setTimer_eq, entry_record, entry_onTimer_of_ne ne]

@[simp] theorem entry_cancelTimer (timerID : TimerID) :
    (service.cancelTimer timerID).entry timerID = (service.entry timerID).cancel := by
  rw [cancelTimer]
  split
  · rename_i absent
    rw [entry, absent]
    rfl
  · rename_i timer found
    rw [entry, Socket.timers_setEntry, entry, found]
    rfl

theorem entry_cancelTimer_of_ne {timerID other : TimerID} (ne : other ≠ timerID) :
    (service.cancelTimer timerID).entry other = service.entry other := by
  rw [cancelTimer]
  split
  · rfl
  · rw [entry, Socket.timers_setEntry_of_ne _ ne]
    rfl

@[simp] theorem history_cancelTimer (timerID : TimerID) :
    (service.cancelTimer timerID).history = service.history := by
  rw [cancelTimer]
  split <;> rfl

@[simp] theorem entry_asyncWrite (writing : Writing) (timerID : TimerID) :
    (service.asyncWrite writing).entry timerID = service.entry timerID := by
  rw [asyncWrite]
  split <;> rfl

@[simp] theorem entry_doWrite (timerID : TimerID) :
    service.doWrite.entry timerID = service.entry timerID := by
  simp only [doWrite, entry_asyncWrite, entry_record]
  rfl

/-! ## What stays in place -/

/-- Between the two neither the socket is destroyed nor the decoder used. -/
structure Steady (service next : InputService) : Prop where
  input : next.socket.input = service.socket.input
  decoder : next.decoder = service.decoder

variable {next last : InputService}

theorem Steady.refl (service : InputService) : service.Steady service := ⟨rfl, rfl⟩

theorem Steady.trans (first : service.Steady next) (second : next.Steady last) :
    service.Steady last where
  input := second.input.trans first.input
  decoder := second.decoder.trans first.decoder

theorem steady_record (effect : Effect) : service.Steady (service.record effect) := ⟨rfl, rfl⟩

theorem steady_onTimer (timerID : TimerID) (change : Timer → Timer) :
    service.Steady (service.onTimer timerID change) := ⟨rfl, rfl⟩

theorem steady_setTimer (timerID : TimerID) (milli : Int) :
    service.Steady (service.setTimer timerID milli) := ⟨rfl, rfl⟩

theorem steady_cancelTimer (timerID : TimerID) :
    service.Steady (service.cancelTimer timerID) := by
  rw [cancelTimer]
  split <;> exact ⟨rfl, rfl⟩

theorem steady_asyncRead : service.Steady service.asyncRead := by
  rw [asyncRead]
  split <;> exact ⟨rfl, rfl⟩

theorem steady_send (message : SessionMessage) :
    service.Steady (service.encode message).doWrite := by
  rw [doWrite, asyncWrite]
  split <;> exact ⟨rfl, rfl⟩

theorem steady_resetEncoder : service.Steady service.resetEncoder := ⟨rfl, rfl⟩

theorem steady_sendHeartBeat : service.Steady service.sendHeartBeat :=
  (steady_record .heartbeat).trans (steady_send heartBeat)

theorem steady_handleConnect (errorcode : Int) :
    service.Steady (service.handleConnect errorcode) := by
  rw [handleConnect]
  split
  · exact (steady_send logonMsg).trans steady_asyncRead
  · exact steady_setTimer _ _

theorem steady_connect (resolution : Resolution) : service.Steady (service.connect resolution) := by
  rw [connect.eq_def]
  split
  · cases resolution with
    | found => exact ⟨rfl, rfl⟩
    | failed code => exact steady_handleConnect _
  · exact steady_handleConnect _

theorem steady_handleError : service.Steady service.handleError :=
  ((steady_record _).trans (steady_cancelTimer _)).trans (steady_setTimer _ _)

theorem steady_handlemessage (content : List UInt8) :
    service.Steady (service.handlemessage content) := by
  rw [handlemessage]
  split
  · exact (steady_record _).trans (steady_setTimer _ _)
  · exact steady_handleError
  · exact .refl service

theorem steady_foldl_handlemessage (handed : List (List UInt8)) :
    service.Steady (handed.foldl handlemessage service) := by
  induction handed generalizing service with
  | nil => exact .refl service
  | cons content handed ih => exact (steady_handlemessage content).trans ih

theorem steady_writeHandle (completion : Completion Unit) :
    service.Steady (service.writeHandle completion) := by
  cases completion with
  | aborted => exact .refl service
  | failed code => exact steady_handleError
  | done result => exact .refl service

theorem steady_heartbeat (resolution : Resolution) (now : Int) :
    service.Steady (service.handleTimer .heartbeat resolution now) := by
  rw [handleTimer]
  split
  · exact (steady_setTimer _ _).trans steady_sendHeartBeat
  · exact steady_setTimer _ _

end InputService

end FlashForwarder
