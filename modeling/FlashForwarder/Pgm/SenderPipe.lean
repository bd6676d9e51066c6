import FlashForwarder.Pgm.Wakefulness
import FlashForwarder.Spsc.PipeContract

/-!
# The pipe of a sender

A feed stands for one direction of a pipe pair.  Here the two run side by side: the pushing thread
writes its messages to `ui_pipe_`, the I/O thread reads them from `io_pipe_`, and the feed takes a
step whenever the queue of the pipe has flushed a message or has answered a `Read`.
-/

namespace FlashForwarder

open Transition

/-- A pipe, and the feed that stands for it. -/
structure PipedFeed where
  /-- The pipe from `ui_pipe_` to `io_pipe_`. -/
  pipe : Pipe PushedMessage
  /-- The feed. -/
  feed : Feed
  /-- What the feed has given to the `Read` that is called. -/
  given : Option (List UInt8)

/-- What a thread does next. -/
inductive PipedAction where
  /-- The pushing thread makes a step; to write a message is to call `Write(msg, &awake_peer)`. -/
  | push (step : PushStep)
  /-- It goes on in `Write`; `fresh` is what `malloc` returns if it is called. -/
  | writer (fresh : Addr)
  /-- The I/O thread calls `Read(0, &msg)`. -/
  | read
  /-- It goes on in `Read`. -/
  | reader

/-- What is seen of it. -/
inductive PipedLabel where
  /-- `Write` has returned, and the feed has written the message, too. -/
  | write (awakePeer obliged : Bool)
  /-- `Read` has returned, to which the feed has given something. -/
  | read (resMsg : Option PushedMessage) (given : Option (List UInt8))

/-- The feed tells what the pipe does. -/
def PipedLabel.Told : PipedLabel → Prop
  | .write awakePeer obliged => awakePeer = obliged
  | .read resMsg given => resMsg.map PushedMessage.content = given

namespace PipedFeed

variable (piped : PipedFeed)

/-- A thread makes a call when it is in none, and `malloc` returns what is not allocated. -/
def Enabled : PipedAction → Prop
  | .push _ => piped.pipe.writer = .idle
  | .writer fresh => piped.pipe.Enabled (.writer fresh)
  | .read => piped.pipe.Enabled (.read 0)
  | .reader => piped.pipe.Enabled .reader

/-- The pushing thread makes a step outside of the pipe. -/
def push : PushStep → PipedFeed
  | .write =>
      match piped.feed.obliged, piped.feed.pending with
      | false, msg :: _ => { piped with pipe := (piped.pipe.write (some msg) false).2 }
      | _, _ => piped
  | step => { piped with feed := piped.feed.act step }

/-- It goes on in `Write`: the feed writes the message when `Flush` returns. -/
def writerStep (fresh : Addr) : Option (Option PipedLabel × PipedFeed) := do
  match ← piped.pipe.exec (.writer fresh) with
  | (some (.flushed activated), pipe) =>
      let feed := piped.feed.act .write
      return (some (.write activated feed.obliged), { piped with pipe := pipe, feed := feed })
  | (_, pipe) => return (none, { piped with pipe := pipe })

/-- The queue has answered a `Read`. -/
def answered : PipeReader PushedMessage → PipeReader PushedMessage → Bool
  | .reading _, .received _ _ => true
  | _, _ => false

/-- The I/O thread goes on in `Read`: the feed takes its message when the queue answers. -/
def readerStep : Option (Option PipedLabel × PipedFeed) := do
  match ← piped.pipe.exec .reader with
  | (some (.read resMsg), pipe) =>
      return (some (.read resMsg piped.given), { piped with pipe := pipe })
  | (_, pipe) =>
      if answered piped.pipe.reader pipe.reader then
        return (none, ⟨pipe, piped.feed.take.2, piped.feed.take.1⟩)
      else return (none, { piped with pipe := pipe })

/-- What an action does, unless its behaviour is undefined. -/
def exec : PipedAction → Option (Option PipedLabel × PipedFeed)
  | .push step => some (none, piped.push step)
  | .writer fresh => piped.writerStep fresh
  | .read => some (none, { piped with pipe := (piped.pipe.read 0).2 })
  | .reader => piped.readerStep

/-- One step of either thread. -/
def Step (piped : PipedFeed) (label : Option PipedLabel) (next : PipedFeed) : Prop :=
  ∃ action, piped.Enabled action ∧ piped.exec action = some (label, next)

/-- A pipe after `CreatePipePair`, and a feed of which nothing was used yet. -/
structure Initial : Prop where
  pipe : piped.pipe.Initial
  flushed : piped.feed.flushed = []
  asleep : piped.feed.asleep = false

/-! ## The feed follows the queue -/

/-- The message that a thread in `Write` has got, which is next for the feed. -/
def Writes (sending : Sending PushedMessage) (msg : PushedMessage) : Prop :=
  sending = .message (some msg) false ∧ piped.feed.obliged = false ∧
    ∃ pending, piped.feed.pending = msg :: pending

/-- Where the pushing thread is: all is flushed but for the message that `Write` has written. -/
def WriterBeside (history : SpscQueue.History (Option PushedMessage)) : Prop :=
  match piped.pipe.writer with
  | .idle => piped.pipe.queue.writer = .idle ∧ history.flushed = history.written.length
  | .writing sending => ∃ msg, piped.Writes sending msg ∧
      (piped.pipe.queue.writer = .idle ∨ piped.pipe.queue.writer = .pushing (some msg) false) ∧
      history.flushed = history.written.length
  | .flushing sending => ∃ msg, piped.Writes sending msg ∧
      (piped.pipe.queue.writer = .idle ∨ piped.pipe.queue.writer = .flushing ∨
        piped.pipe.queue.writer = .storing) ∧
      history.written.drop history.flushed = [some msg]

/-- Where the I/O thread is: what the queue has answered is what the feed has given. -/
def ReaderBeside : Prop :=
  match piped.pipe.reader with
  | .idle => piped.pipe.queue.reader = .idle
  | .checking => False
  | .reading others => others = some 0 ∧ (piped.pipe.queue.reader = .idle ∨
      piped.pipe.queue.reader = .checking true ∨ piped.pipe.queue.reader = .taking)
  | .received value others => others = some 0 ∧
      (piped.pipe.queue.reader = .idle ∨
        ∃ emptied, piped.pipe.queue.reader = .recycling emptied) ∧
      value.map (Option.map PushedMessage.content) = piped.given.map some

/-- The feed is beside the pipe. -/
structure Beside (history : SpscQueue.History (Option PushedMessage)) : Prop where
  queue : piped.pipe.queue.Refines Pipe.granularity history
  terminated : piped.pipe.terminated = false
  peerTerminated : piped.pipe.peerTerminated = false
  completed : history.completed = history.written.length
  flushed : (history.written.take history.flushed).drop history.returned.length =
    piped.feed.flushed.map some
  asleep : history.asleep = piped.feed.asleep
  writer : piped.WriterBeside history
  reader : piped.ReaderBeside

variable {piped} {next : PipedFeed} {label : Option PipedLabel}
  {history : SpscQueue.History (Option PushedMessage)}

theorem ReaderBeside.along (beside : piped.ReaderBeside) {pipe : Pipe PushedMessage}
    (reader : pipe.reader = piped.pipe.reader)
    (queue : pipe.queue.reader = piped.pipe.queue.reader) (feed : Feed) :
    ReaderBeside ⟨pipe, feed, piped.given⟩ := by
  simpa only [ReaderBeside, reader, queue] using beside

theorem WriterBeside.along (beside : piped.WriterBeside history) {pipe : Pipe PushedMessage}
    {feed : Feed} (writer : pipe.writer = piped.pipe.writer)
    (queue : pipe.queue.writer = piped.pipe.queue.writer)
    (obliged : feed.obliged = piped.feed.obliged) (pending : feed.pending = piped.feed.pending)
    {history' : SpscQueue.History (Option PushedMessage)}
    (written : history'.written = history.written) (flushed : history'.flushed = history.flushed)
    (given : Option (List UInt8)) : WriterBeside ⟨pipe, feed, given⟩ history' := by
  simpa only [WriterBeside, Writes, writer, queue, obliged, pending, written, flushed] using beside

/-- The feed as another call of the pushing thread leaves it. -/
theorem act_of_ne_write (feed : Feed) {step : PushStep} (other : step ≠ .write) :
    (feed.act step).flushed = feed.flushed ∧ (feed.act step).asleep = feed.asleep := by
  cases step with
  | call call =>
      rw [Feed.act]
      split <;> exact ⟨rfl, rfl⟩
  | write => exact absurd rfl other
  | sendCommand =>
      rw [Feed.act]
      split <;> exact ⟨rfl, rfl⟩

/-- The pushing thread makes a step outside of the pipe, or calls `Write`. -/
theorem Beside.push (beside : piped.Beside history) (idle : piped.pipe.writer = .idle)
    (step : PushStep) : (piped.push step).Beside history := by
  have apart := beside.writer
  rw [WriterBeside, idle] at apart
  by_cases write : step = .write
  · subst write
    rw [PipedFeed.push]
    split
    · rename_i msg pending obliged next
      rw [Pipe.write, if_neg (by rw [beside.terminated]; exact Bool.false_ne_true)]
      exact
        { beside with
          writer := ⟨msg, ⟨rfl, obliged, pending, next⟩, Or.inl apart.1, apart.2⟩ }
    · exact beside
  · have same := act_of_ne_write piped.feed write
    have pushed : piped.push step = { piped with feed := piped.feed.act step } := by
      cases step with
      | write => exact absurd rfl write
      | call call => rfl
      | sendCommand => rfl
    rw [pushed]
    refine { beside with flushed := ?_, asleep := ?_, writer := ?_ }
    · rw [same.1]
      exact beside.flushed
    · rw [same.2]
      exact beside.asleep
    · rw [WriterBeside, idle]
      exact apart

theorem Beside.continues (beside : piped.Beside history)
    {action : Action (Option PushedMessage)}
    (enabled : piped.pipe.queue.Enabled action) :
    SpscQueue.Continues Pipe.granularity history
      (piped.pipe.queue.exec Pipe.granularity action) := by
  obtain ⟨addr, last, inside⟩ := beside.queue
  exact inside.continues (by decide) enabled

theorem Beside.writing (beside : piped.Beside history) {sending : Sending PushedMessage}
    (writing : piped.pipe.writer = .writing sending) {fresh : Addr}
    (unallocated : piped.pipe.queue.queue.heap fresh = none)
    (done : piped.writerStep fresh = some (label, next)) :
    label = none ∧ ∃ history, next.Beside history := by
  have apart := beside.writer
  rw [WriterBeside, writing] at apart
  obtain ⟨msg, ⟨rfl, obliged, pending, next_eq⟩, within, whole⟩ := apart
  have enabled : piped.pipe.queue.Enabled
      (piped.pipe.queue.orWriter (.write (some msg) false) fresh) :=
    SpscQueue.enabled_orWriter id unallocated
  obtain ⟨shown, queue, result, follows⟩ := beside.continues enabled
  have complete := beside.flushed
  obtain ⟨reader, ⟨rfl, pushing⟩ | ⟨rfl, idle⟩⟩ := SpscQueue.write_cases within result
  · have stepped : piped.pipe.exec (.writer fresh) =
        some (none, { piped.pipe with queue := queue }) := by
      simp [Pipe.exec, Pipe.writerStep, writing, Sending.value, Sending.incomplete, result]
    rw [writerStep, stepped] at done
    obtain ⟨rfl, rfl⟩ := Prod.mk.inj (Option.some_inj.mp done)
    refine ⟨rfl, history,
      { beside with
        queue := follows
        writer := ?_
        reader := beside.reader.along (by rfl) reader _ }⟩
    rw [WriterBeside, writing]
    exact ⟨msg, ⟨rfl, obliged, pending, next_eq⟩, Or.inr pushing, whole⟩
  · obtain ⟨-, refines⟩ := follows
    have stepped : piped.pipe.exec (.writer fresh) =
        some (some (.write (some msg) false), { piped.pipe with
          queue := queue
          writer := .flushing (.message (some msg) false) }) := by
      simp [Pipe.exec, Pipe.writerStep, Pipe.sent, writing, Sending.value, Sending.incomplete,
        result]
    rw [writerStep, stepped] at done
    obtain ⟨rfl, rfl⟩ := Prod.mk.inj (Option.some_inj.mp done)
    refine ⟨rfl, history.next (.write (some msg) false),
      { beside with
        queue := refines
        completed := ?_
        flushed := ?_
        writer := ⟨msg, ⟨rfl, obliged, pending, next_eq⟩, Or.inl idle, ?_⟩
        reader := beside.reader.along (by rfl) reader _ }⟩
    · simp [SpscQueue.History.next]
    · rw [SpscQueue.History.next]
      dsimp only
      rw [whole, List.take_append_of_le_length le_rfl]
      rw [whole] at complete
      exact complete
    · rw [SpscQueue.History.next]
      dsimp only
      rw [whole, List.drop_append_of_le_length le_rfl, List.drop_length, List.nil_append]

theorem Beside.flushing (beside : piped.Beside history) {sending : Sending PushedMessage}
    (flushing : piped.pipe.writer = .flushing sending) {fresh : Addr}
    (unallocated : piped.pipe.queue.queue.heap fresh = none)
    (done : piped.writerStep fresh = some (label, next)) :
    (∀ shown ∈ label, shown.Told) ∧ ∃ history, next.Beside history := by
  have apart := beside.writer
  rw [WriterBeside, flushing] at apart
  obtain ⟨msg, ⟨rfl, obliged, pending, next_eq⟩, within, left⟩ := apart
  have enabled : piped.pipe.queue.Enabled (piped.pipe.queue.orWriter .flush fresh) :=
    SpscQueue.enabled_orWriter id unallocated
  obtain ⟨shown, queue, result, follows⟩ := beside.continues enabled
  obtain ⟨reader, ⟨rfl, inside⟩ | ⟨⟨returned, rfl⟩, idle⟩⟩ := SpscQueue.flush_cases within result
  · have stepped : piped.pipe.exec (.writer fresh) =
        some (none, { piped.pipe with queue := queue }) := by
      simp [Pipe.exec, Pipe.writerStep, flushing, result]
    rw [writerStep, stepped] at done
    obtain ⟨rfl, rfl⟩ := Prod.mk.inj (Option.some_inj.mp done)
    refine ⟨by simp, history,
      { beside with
        queue := follows
        writer := ?_
        reader := beside.reader.along (by rfl) reader _ }⟩
    rw [WriterBeside, flushing]
    exact ⟨msg, ⟨rfl, obliged, pending, next_eq⟩, Or.inr inside, left⟩
  · obtain ⟨allowed, refines⟩ := follows
    have stepped : piped.pipe.exec (.writer fresh) =
        some (some (.flushed !returned), { piped.pipe with
          queue := queue
          writer := .idle }) := by
      simp [Pipe.exec, Pipe.writerStep, flushing, result]
    have written : piped.feed.act .write =
        { piped.feed with
          pending := pending
          flushed := piped.feed.flushed ++ [msg]
          obliged := piped.feed.asleep
          asleep := false } := by
      rw [Feed.act, obliged, next_eq]
    have unflushed : history.flushed ≠ history.completed := by
      intro same
      rw [same, beside.completed, List.drop_length] at left
      exact absurd left (List.cons_ne_nil _ _).symm
    rw [writerStep, stepped] at done
    obtain ⟨rfl, rfl⟩ := Prod.mk.inj (Option.some_inj.mp done)
    refine ⟨?_, history.next (.flush returned), ?_⟩
    · rintro _ ⟨⟩
      rw [PipedLabel.Told, written]
      rw [SpscQueue.History.Allows, beside.asleep] at allowed
      cases returned <;> simpa [unflushed] using allowed
    · rw [SpscQueue.History.next, if_neg unflushed] at refines ⊢
      obtain ⟨addr, last, agrees⟩ := beside.queue
      have orderly := agrees.orderly
      exact
        { beside with
          queue := refines
          flushed := by
            dsimp only
            rw [beside.completed, List.take_length, written, List.map_append, ← beside.flushed,
              List.map_singleton, ← left,
              ← List.drop_append_of_le_length (by
                rw [List.length_take]
                have := orderly.returned_le
                have := orderly.flushed_le
                have := orderly.completed_le
                omega),
              List.take_append_drop]
          asleep := by rw [written]
          writer := ⟨idle, beside.completed⟩
          reader := beside.reader.along (by rfl) reader _ }

/-- When the queue has nothing to return, the feed is empty. -/
theorem Beside.flushed_eq_nil (beside : piped.Beside history)
    (caught_up : history.returned.length = history.flushed) : piped.feed.flushed = [] := by
  have same := beside.flushed
  rw [caught_up, List.drop_eq_nil_of_le (List.length_take_le _ _)] at same
  exact List.map_eq_nil_iff.mp same.symm

/-- What the queue returns is the next message of the feed. -/
theorem Beside.flushed_eq_cons (beside : piped.Beside history) {value : Option PushedMessage}
    (ready : history.returned.length < history.flushed)
    (here : history.written[history.returned.length]? = some value) :
    ∃ msg flushed, value = some msg ∧ piped.feed.flushed = msg :: flushed ∧
      (history.written.take history.flushed).drop (history.returned.length + 1) =
        flushed.map some := by
  have same := beside.flushed
  have place : (history.written.take history.flushed)[history.returned.length]? = some value := by
    rwa [List.getElem?_take_of_lt ready]
  obtain ⟨within, value_eq⟩ := List.getElem?_eq_some_iff.mp place
  rw [List.drop_eq_getElem_cons within, value_eq] at same
  obtain ⟨msg, flushed, feed_eq, rfl, rest⟩ := List.map_eq_cons_iff.mp same.symm
  exact ⟨msg, flushed, rfl, feed_eq, rest.symm⟩

theorem Beside.reading (beside : piped.Beside history) {others : Option Nat}
    (reading : piped.pipe.reader = .reading others)
    (done : piped.readerStep = some (label, next)) :
    label = none ∧ ∃ history, next.Beside history := by
  have apart := beside.reader
  rw [ReaderBeside, reading] at apart
  obtain ⟨rfl, within⟩ := apart
  have enabled : piped.pipe.queue.Enabled (piped.pipe.queue.orReader .read) :=
    SpscQueue.enabled_orReader id
  obtain ⟨shown, queue, result, follows⟩ := beside.continues enabled
  obtain ⟨writer, ⟨rfl, inside⟩ | ⟨value, rfl, after⟩⟩ := SpscQueue.read_cases within result
  · have stepped : piped.pipe.exec .reader = some (none, { piped.pipe with queue := queue }) := by
      simp [Pipe.exec, Pipe.readerStep, reading, beside.peerTerminated, result]
    have goes_on : piped.readerStep =
        some (none, { piped with pipe := { piped.pipe with queue := queue } }) := by
      simp [readerStep, stepped, answered, reading]
    obtain ⟨rfl, rfl⟩ := Prod.mk.inj (Option.some_inj.mp (goes_on.symm.trans done))
    refine ⟨rfl, history,
      { beside with
        queue := follows
        writer := beside.writer.along (by rfl) writer rfl rfl rfl rfl piped.given
        reader := ?_ }⟩
    rw [ReaderBeside, reading]
    exact ⟨rfl, Or.inr inside⟩
  · obtain ⟨allowed, refines⟩ := follows
    have stepped : piped.pipe.exec .reader =
        some (none, { piped.pipe with
          queue := queue
          reader := .received value (some 0) }) := by
      simp [Pipe.exec, Pipe.readerStep, reading, beside.peerTerminated, result]
    have taken : piped.readerStep =
        some (none, ⟨{ piped.pipe with
          queue := queue
          reader := .received value (some 0) }, piped.feed.take.2, piped.feed.take.1⟩) := by
      simp [readerStep, stepped, answered, reading]
    obtain ⟨rfl, rfl⟩ := Prod.mk.inj (Option.some_inj.mp (taken.symm.trans done))
    refine ⟨rfl, history.next (.read value), ?_⟩
    cases value with
    | none =>
        have empty := beside.flushed_eq_nil allowed
        have took : piped.feed.take = (none, { piped.feed with asleep := true }) := by
          simp only [Feed.take, empty]
        rw [took]
        exact
          { beside with
            queue := refines
            asleep := rfl
            writer := beside.writer.along (by rfl) writer rfl rfl rfl rfl none
            reader := ⟨rfl, after.imp_right And.right, rfl⟩ }
    | some value =>
        obtain ⟨msg, flushed, rfl, feed_eq, rest⟩ := beside.flushed_eq_cons allowed.1 allowed.2
        have took : piped.feed.take =
            (some msg.content, { piped.feed with flushed := flushed }) := by
          rw [Feed.take, feed_eq]
        rw [took]
        exact
          { beside with
            queue := refines
            flushed := by
              rw [SpscQueue.History.next, List.length_append, List.length_singleton]
              exact rest
            writer := beside.writer.along (by rfl) writer rfl rfl rfl rfl (some msg.content)
            reader := ⟨rfl, after.imp_right And.right, rfl⟩ }

theorem Beside.received (beside : piped.Beside history) {value : Option (Option PushedMessage)}
    {others : Option Nat} (received : piped.pipe.reader = .received value others)
    (done : piped.readerStep = some (label, next)) :
    (∀ shown ∈ label, shown.Told) ∧ ∃ history, next.Beside history := by
  have apart := beside.reader
  rw [ReaderBeside, received] at apart
  obtain ⟨rfl, idle | ⟨emptied, recycling⟩, same⟩ := apart
  · have returns : ∃ resMsg, resMsg.map PushedMessage.content = piped.given ∧
        piped.pipe.exec .reader =
          some (some (.read resMsg), { piped.pipe with reader := .idle }) := by
      rcases value with _ | _ | msg
      · refine ⟨none, ?_, by simp [Pipe.exec, Pipe.readerStep, received, idle, Pipe.conclude]⟩
        cases given : piped.given <;> simp [given] at same ⊢
      · cases given : piped.given <;> simp [given] at same
      · refine ⟨some msg, ?_, by simp [Pipe.exec, Pipe.readerStep, received, idle, Pipe.conclude]⟩
        cases given : piped.given <;> simp [given] at same ⊢
        exact same
    obtain ⟨resMsg, told, stepped⟩ := returns
    have returned : piped.readerStep = some (some (.read resMsg piped.given),
        { piped with pipe := { piped.pipe with reader := .idle } }) := by
      rw [readerStep, stepped]
      rfl
    obtain ⟨rfl, rfl⟩ := Prod.mk.inj (Option.some_inj.mp (returned.symm.trans done))
    refine ⟨?_, history,
      { beside with
        writer := beside.writer.along (by rfl) rfl rfl rfl rfl rfl piped.given
        reader := idle }⟩
    rintro _ ⟨⟩
    exact told
  · have enabled : piped.pipe.queue.Enabled .reader :=
      fun idle => by simp [recycling] at idle
    obtain ⟨shown, queue, result, follows⟩ := beside.continues enabled
    obtain ⟨writer, rfl, idle⟩ := SpscQueue.recycle_cases recycling result
    have stepped : piped.pipe.exec .reader = some (none, { piped.pipe with queue := queue }) := by
      simp [Pipe.exec, Pipe.readerStep, received, recycling, result]
    have goes_on : piped.readerStep =
        some (none, { piped with pipe := { piped.pipe with queue := queue } }) := by
      simp [readerStep, stepped, answered, received]
    obtain ⟨rfl, rfl⟩ := Prod.mk.inj (Option.some_inj.mp (goes_on.symm.trans done))
    refine ⟨by simp, history,
      { beside with
        queue := follows
        writer := beside.writer.along (by rfl) writer rfl rfl rfl rfl piped.given
        reader := ?_ }⟩
    rw [ReaderBeside, received]
    exact ⟨rfl, Or.inl idle, same⟩

/-- A step keeps the feed beside the pipe, and the feed tells what the pipe does. -/
theorem Beside.step (beside : piped.Beside history) (step : piped.Step label next) :
    (∀ shown ∈ label, shown.Told) ∧ ∃ history, next.Beside history := by
  obtain ⟨action, enabled, done⟩ := step
  cases action with
  | push step =>
      obtain ⟨rfl, rfl⟩ := Prod.mk.inj (Option.some_inj.mp done)
      exact ⟨by simp, history, beside.push enabled step⟩
  | writer fresh =>
      obtain ⟨busy, unallocated⟩ := enabled
      cases writer : piped.pipe.writer with
      | idle => exact absurd writer busy
      | writing sending =>
          obtain ⟨rfl, kept⟩ := beside.writing writer unallocated done
          exact ⟨by simp, kept⟩
      | flushing sending => exact beside.flushing writer unallocated done
  | read =>
      have idle := beside.reader
      rw [ReaderBeside, show piped.pipe.reader = .idle from enabled] at idle
      obtain ⟨rfl, rfl⟩ := Prod.mk.inj (Option.some_inj.mp done)
      exact ⟨by simp, history,
        { beside with
          writer := beside.writer.along (by rfl) rfl rfl rfl rfl rfl piped.given
          reader := ⟨rfl, Or.inl idle⟩ }⟩
  | reader =>
      cases reader : piped.pipe.reader with
      | idle => exact absurd reader enabled
      | checking =>
          have apart := beside.reader
          rw [ReaderBeside, reader] at apart
          exact apart.elim
      | reading others =>
          obtain ⟨rfl, kept⟩ := beside.reading reader done
          exact ⟨by simp, kept⟩
      | received value others => exact beside.received reader done

theorem Initial.beside (initial : piped.Initial) : piped.Beside {} := by
  obtain ⟨⟨fresh, fresh', distinct, created⟩, flushed, asleep⟩ := initial
  rw [Pipe.create] at created
  obtain ⟨queue, set_up, rest⟩ := Option.bind_eq_some_iff.mp created
  have start : SpscQueue.Initial Pipe.granularity queue := ⟨fresh, fresh', distinct, set_up⟩
  obtain ⟨pipe, feed, given⟩ := piped
  obtain rfl := Option.some_inj.mp rest
  exact
    { queue := start.refines (by decide)
      terminated := rfl
      peerTerminated := rfl
      completed := rfl
      flushed := by simp [show feed.flushed = [] from flushed]
      asleep := asleep.symm
      writer := ⟨start.idle.1, rfl⟩
      reader := start.idle.2 }

/-- The feed is the pipe as its two threads find it: `Write` says that the peer is to be awoken just
when the feed obliges the pushing thread, and `Read` returns the message of which the feed has given
the content, or fails when the feed has given none. -/
theorem feed_tells (initial : piped.Initial) {trace : List PipedLabel}
    (run : Run Step piped trace next) : ∀ shown ∈ trace, shown.Told := by
  have both : (∃ history, next.Beside history) ∧ ∀ shown ∈ trace, shown.Told := by
    induction run with
    | nil => exact ⟨⟨_, initial.beside⟩, by simp⟩
    | silent _ step ih =>
        obtain ⟨⟨history, beside⟩, told⟩ := ih
        exact ⟨(beside.step step).2, told⟩
    | visible _ step ih =>
        obtain ⟨⟨history, beside⟩, told⟩ := ih
        obtain ⟨here, kept⟩ := beside.step step
        exact ⟨kept, List.forall_mem_append.mpr ⟨told, by simpa using here⟩⟩
  exact both.2

end PipedFeed

end FlashForwarder
