import FlashForwarder.Spsc.Queue

/-!
# The pipe

One direction of a pipe pair: the end that writes, the queue between the two, and the end that
reads.  The termination marker is a null message in the queue.  One step of an end is at most one
step of its thread in the queue.
-/

namespace FlashForwarder

/-- What the writing end puts into the queue. -/
inductive Sending (α : Type) where
  /-- `Write(msg, incomplete)`; the overload with `o_wake_peer` is `Write(msg, false)`. -/
  | message (msg : Option α) (incomplete : Bool)
  /-- The marker that `Terminate` writes. -/
  | termination

/-- The pointer that goes into the queue. -/
def Sending.value {α : Type} : Sending α → Option α
  | .message msg _ => msg
  | .termination => none

/-- Whether it goes there as an incomplete item. -/
def Sending.incomplete {α : Type} : Sending α → Bool
  | .message _ incomplete => incomplete
  | .termination => false

/-- Where the writing end is. -/
inductive PipeWriter (α : Type) where
  /-- Between two calls. -/
  | idle
  /-- In the `Write` of the queue. -/
  | writing (sending : Sending α)
  /-- In the `Flush` of the queue. -/
  | flushing (sending : Sending α)

/-- Where the reading end is. -/
inductive PipeReader (α : Type) where
  /-- Between two calls. -/
  | idle
  /-- In the `CheckRead` of the queue. -/
  | checking
  /-- In a `DoRead` that is followed by at most so many others. -/
  | reading (others : Option Nat)
  /-- After the `Read` of the queue, with the pointer it gave, if it returned true. -/
  | received (value : Option (Option α)) (others : Option Nat)

theorem PipeWriter.writing_ne_idle {α : Type} (sending : Sending α) :
    PipeWriter.writing sending ≠ .idle := by
  simp

theorem PipeWriter.flushing_ne_idle {α : Type} (sending : Sending α) :
    PipeWriter.flushing sending ≠ .idle := by
  simp

theorem PipeReader.reading_ne_idle {α : Type} (others : Option Nat) :
    (PipeReader.reading others : PipeReader α) ≠ .idle := by
  simp

theorem PipeReader.received_ne_idle {α : Type} (value : Option (Option α))
    (others : Option Nat) : PipeReader.received value others ≠ .idle := by
  simp

/-- The members of the two ends, and where they are. -/
structure Pipe (α : Type) where
  /-- `out_queue_` of one end and `in_queue_` of the other. -/
  queue : SpscQueue (Option α)
  /-- `terminated_` of the writing end. -/
  terminated : Bool
  /-- `peer_terminated_` of the reading end. -/
  peerTerminated : Bool
  /-- The writing end. -/
  writer : PipeWriter α
  /-- The reading end. -/
  reader : PipeReader α

/-- What is seen of a step. -/
inductive PipeLabel (α : Type) where
  /-- A `Write` has put its message into the queue. -/
  | write (msg : Option α) (incomplete : Bool)
  /-- A `Write` returns -1. -/
  | refused
  /-- `Unwrite`, with the message it gives, if it returns 0. -/
  | unwrite (resMsg : Option (Option α))
  /-- A `Terminate` has put its marker into the queue. -/
  | terminate
  /-- `Write` or `Terminate` returns 0 after a `Flush`, and has called `SendReadActivated` or
  not. -/
  | flushed (activated : Bool)
  /-- `CheckRead`, with what it returns. -/
  | checkRead (returned : Bool)
  /-- `Read`, with the message it gives, if it returns 0; otherwise it returns -1. -/
  | read (resMsg : Option α)

/-- A call, or one more step of an end that is inside one. -/
inductive PipeAction (α : Type) where
  | write (msg : Option α) (incomplete : Bool)
  | unwrite
  | terminate
  | checkRead
  | read (timeout : Int)
  /-- The writing end goes on; `fresh` is what `malloc` returns if it is called. -/
  | writer (fresh : Addr)
  /-- The reading end goes on. -/
  | reader

/-- The writer begins a call of the queue, or goes on with the one it is in. -/
def SpscQueue.orWriter {α : Type} (queue : SpscQueue α) (call : Action α) (fresh : Addr) :
    Action α :=
  match queue.writer with
  | .idle => call
  | _ => .writer fresh

/-- The reader begins a call of the queue, or goes on with the one it is in. -/
def SpscQueue.orReader {α : Type} (queue : SpscQueue α) (call : Action α) : Action α :=
  match queue.reader with
  | .idle => call
  | _ => .reader

namespace Pipe

variable {α : Type}

/-- The granularity of `messageQueue`. -/
def granularity : Nat := 256

/-- How many times `Read` calls `DoRead` again when it fails, unless it does so forever. -/
def retries (timeout : Int) : Option Nat :=
  if timeout = 0 then some 0 else if timeout > 0 then some 2 else none

/-- One direction of `CreatePipePair`. -/
def create (fresh fresh' : Addr) : Option (Pipe α) := do
  let queue ← SpscQueue.init granularity fresh fresh'
  return ⟨queue, false, false, .idle, .idle⟩

variable (pipe : Pipe α)

/-- An end makes a call when it is in none, and `malloc` returns what is not allocated. -/
def Enabled : PipeAction α → Prop
  | .write _ _ | .unwrite | .terminate => pipe.writer = .idle
  | .checkRead | .read _ => pipe.reader = .idle
  | .writer fresh => pipe.writer ≠ .idle ∧ pipe.queue.queue.heap fresh = none
  | .reader => pipe.reader ≠ .idle

/-- What is seen when the queue has taken a message or the marker. -/
def sent : Sending α → PipeLabel α
  | .message msg incomplete => .write msg incomplete
  | .termination => .terminate

/-- `Write`, before it writes to the queue. -/
def write (msg : Option α) (incomplete : Bool) : Option (PipeLabel α) × Pipe α :=
  if pipe.terminated then (some .refused, pipe)
  else (none, { pipe with writer := .writing (.message msg incomplete) })

/-- `Unwrite` -/
def unwrite : Option (Option (PipeLabel α) × Pipe α) := do
  match ← pipe.queue.exec granularity .unwrite with
  | (some (.unwrite value), queue) => return (some (.unwrite value), { pipe with queue := queue })
  | (_, queue) => return (none, { pipe with queue := queue })

/-- `Terminate`, before it writes to the queue. -/
def terminate : Option (PipeLabel α) × Pipe α :=
  if pipe.terminated then (none, pipe)
  else (none, { pipe with writer := .writing .termination })

/-- `CheckRead`, before it looks at the queue. -/
def checkRead : Option (PipeLabel α) × Pipe α :=
  if pipe.peerTerminated then (some (.checkRead false), pipe)
  else (none, { pipe with reader := .checking })

/-- `Read`, before its first `DoRead`. -/
def read (timeout : Int) : Option (PipeLabel α) × Pipe α :=
  (none, { pipe with reader := .reading (retries timeout) })

/-- One more step of the writing end. -/
def writerStep (fresh : Addr) : Option (Option (PipeLabel α) × Pipe α) :=
  match pipe.writer with
  | .idle => none
  | .writing sending => do
      let call := .write sending.value sending.incomplete
      match ← pipe.queue.exec granularity (pipe.queue.orWriter call fresh) with
      | (none, queue) => return (none, { pipe with queue := queue })
      | (some _, queue) =>
          return (some (sent sending),
            { pipe with
              queue := queue
              writer := if sending.incomplete then .idle else .flushing sending })
  | .flushing sending => do
      match ← pipe.queue.exec granularity (pipe.queue.orWriter .flush fresh) with
      | (some (.flush returned), queue) =>
          return (some (.flushed !returned),
            { pipe with
              queue := queue
              terminated := match sending with
                | .message _ _ => pipe.terminated
                | .termination => true
              writer := .idle })
      | (_, queue) => return (none, { pipe with queue := queue })

/-- The end of `DoRead`, and what `Read` makes of it. -/
def conclude (value : Option (Option α)) (others : Option Nat) :
    Option (PipeLabel α) × Pipe α :=
  match value, others with
  | some (some msg), _ => (some (.read (some msg)), { pipe with reader := .idle })
  | some none, _ => (some (.read none), { pipe with peerTerminated := true, reader := .idle })
  | none, some 0 => (some (.read none), { pipe with reader := .idle })
  | none, some (others + 1) => (none, { pipe with reader := .reading (some others) })
  | none, none => (none, { pipe with reader := .reading none })

/-- One more step of the reading end. -/
def readerStep : Option (Option (PipeLabel α) × Pipe α) :=
  match pipe.reader with
  | .idle => none
  | .checking => do
      match ← pipe.queue.exec granularity (pipe.queue.orReader .checkRead) with
      | (some (.checkRead returned), queue) =>
          return (some (.checkRead returned), { pipe with queue := queue, reader := .idle })
      | (_, queue) => return (none, { pipe with queue := queue })
  | .reading others =>
      if pipe.peerTerminated then
        return (some (.read none), { pipe with reader := .idle })
      else do
        match ← pipe.queue.exec granularity (pipe.queue.orReader .read) with
        | (some (.read value), queue) =>
            return (none, { pipe with queue := queue, reader := .received value others })
        | (_, queue) => return (none, { pipe with queue := queue })
  | .received value others =>
      match pipe.queue.reader with
      | .idle => return pipe.conclude value others
      | _ => do
          let (_, queue) ← pipe.queue.exec granularity .reader
          return (none, { pipe with queue := queue })

/-- What an action does, unless its behaviour is undefined. -/
def exec : PipeAction α → Option (Option (PipeLabel α) × Pipe α)
  | .write msg incomplete => some (pipe.write msg incomplete)
  | .unwrite => pipe.unwrite
  | .terminate => some pipe.terminate
  | .checkRead => some pipe.checkRead
  | .read timeout => some (pipe.read timeout)
  | .writer fresh => pipe.writerStep fresh
  | .reader => pipe.readerStep

/-- One step of either end. -/
def Step (pipe : Pipe α) (label : Option (PipeLabel α)) (next : Pipe α) : Prop :=
  ∃ action, pipe.Enabled action ∧ pipe.exec action = some (label, next)

end Pipe

end FlashForwarder
