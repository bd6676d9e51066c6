import FlashForwarder.Spsc.Pipe
import FlashForwarder.Spsc.Refinement

/-!
# What a pipe delivers

The messages that `Read` returns come in the order in which they were completed.  They are completed
by a `Write` when no incomplete message is pending at `Terminate`; the marker of `Terminate`
completes and flushes the messages that are.
-/

namespace FlashForwarder

open Transition

variable {α : Type}

/-! ## Where a thread of the queue goes next -/

namespace SpscQueue

variable {N : Nat} {state next : SpscQueue α} {label : Option (Label α)} {value : α}
  {incomplete reading : Bool} {fresh : Addr}

/-- Whether it begins a call or goes on with one, the writer can. -/
theorem enabled_orWriter {call : Action α} (begins : state.writer = .idle → state.Enabled call)
    (unallocated : state.queue.heap fresh = none) :
    state.Enabled (state.orWriter call fresh) := by
  rw [orWriter]
  split
  · exact begins ‹_›
  · exact ⟨‹_›, unallocated⟩

theorem enabled_orReader {call : Action α} (begins : state.reader = .idle → state.Enabled call) :
    state.Enabled (state.orReader call) := by
  rw [orReader]
  split
  · exact begins ‹_›
  · exact ‹state.reader = .idle → False›

/-- One more step in a `Write` that has begun or not. -/
theorem write_cases (within : state.writer = .idle ∨ state.writer = .pushing value incomplete)
    (done : state.exec N (state.orWriter (.write value incomplete) fresh) = some (label, next)) :
    next.reader = state.reader ∧
      (label = none ∧ next.writer = .pushing value incomplete ∨
        label = some (.write value incomplete) ∧ next.writer = .idle) := by
  rcases within with idle | pushing
  · rw [orWriter, idle] at done
    obtain ⟨queue, -, rest⟩ := Option.bind_eq_some_iff.mp done
    dsimp only at rest
    split at rest <;> obtain ⟨rfl, rfl⟩ := Prod.mk.inj (Option.some_inj.mp rest)
    · exact ⟨rfl, Or.inr ⟨rfl, rfl⟩⟩
    · exact ⟨rfl, Or.inl ⟨rfl, rfl⟩⟩
  · rw [orWriter, pushing, exec, writerStep, pushing] at done
    obtain ⟨queue, -, rest⟩ := Option.bind_eq_some_iff.mp done
    obtain ⟨rfl, rfl⟩ := Prod.mk.inj (Option.some_inj.mp rest)
    exact ⟨rfl, Or.inr ⟨rfl, rfl⟩⟩

theorem unwrite_cases (done : state.exec N .unwrite = some (label, next)) :
    next.reader = state.reader ∧ next.writer = state.writer ∧
      ∃ value, label = some (.unwrite value) := by
  rw [exec, unwrite] at done
  split at done
  · obtain ⟨rfl, rfl⟩ := Prod.mk.inj (Option.some_inj.mp done)
    exact ⟨rfl, rfl, none, rfl⟩
  · obtain ⟨queue, -, rest⟩ := Option.bind_eq_some_iff.mp done
    obtain ⟨value, -, rest⟩ := Option.bind_eq_some_iff.mp rest
    obtain ⟨rfl, rfl⟩ := Prod.mk.inj (Option.some_inj.mp rest)
    exact ⟨rfl, rfl, some value, rfl⟩

/-- One more step in a `Flush` that has begun or not. -/
theorem flush_cases
    (within : state.writer = .idle ∨ state.writer = .flushing ∨ state.writer = .storing)
    (done : state.exec N (state.orWriter .flush fresh) = some (label, next)) :
    next.reader = state.reader ∧
      (label = none ∧ (next.writer = .flushing ∨ next.writer = .storing) ∨
        (∃ returned, label = some (.flush returned)) ∧ next.writer = .idle) := by
  rcases within with idle | flushing | storing
  · rw [orWriter, idle, exec, flush] at done
    split at done <;> obtain ⟨rfl, rfl⟩ := Prod.mk.inj (Option.some_inj.mp done)
    · exact ⟨rfl, Or.inr ⟨⟨true, rfl⟩, idle⟩⟩
    · exact ⟨rfl, Or.inl ⟨rfl, Or.inl rfl⟩⟩
  · rw [orWriter, flushing, exec, writerStep, flushing] at done
    dsimp only at done
    split at done <;> obtain ⟨rfl, rfl⟩ := Prod.mk.inj (Option.some_inj.mp done)
    · exact ⟨rfl, Or.inr ⟨⟨true, rfl⟩, rfl⟩⟩
    · exact ⟨rfl, Or.inl ⟨rfl, Or.inr rfl⟩⟩
  · rw [orWriter, storing, exec, writerStep, storing] at done
    obtain ⟨rfl, rfl⟩ := Prod.mk.inj (Option.some_inj.mp done)
    exact ⟨rfl, Or.inr ⟨⟨false, rfl⟩, rfl⟩⟩

/-- The first step of `CheckRead`, or of the `Read` that begins with it. -/
theorem checkRead_cases (idle : state.reader = .idle)
    (done : state.checkRead reading = some (label, next)) :
    next.writer = state.writer ∧
      (label = none ∧ (next.reader = .checking reading ∨ reading = true ∧ next.reader = .taking) ∨
        reading = false ∧ (∃ returned, label = some (.checkRead returned)) ∧
          next.reader = .idle) := by
  cases reading <;> rw [checkRead] at done <;> split at done <;>
    obtain ⟨rfl, rfl⟩ := Prod.mk.inj (Option.some_inj.mp done)
  · exact ⟨rfl, Or.inr ⟨rfl, ⟨true, rfl⟩, idle⟩⟩
  · exact ⟨rfl, Or.inl ⟨rfl, Or.inl rfl⟩⟩
  · exact ⟨rfl, Or.inl ⟨rfl, Or.inr ⟨rfl, rfl⟩⟩⟩
  · exact ⟨rfl, Or.inl ⟨rfl, Or.inl rfl⟩⟩

theorem prefetch_cases (done : state.prefetch reading = some (label, next)) :
    next.writer = state.writer ∧
      (label = none ∧ reading = true ∧ next.reader = .taking ∨
        reading = true ∧ label = some (.read none) ∧ next.reader = .idle ∨
        reading = false ∧ (∃ returned, label = some (.checkRead returned)) ∧
          next.reader = .idle) := by
  obtain ⟨moved, moved_eq⟩ : ∃ moved, moved =
      if state.contention = state.queue.front
      then { state with contention := none, rItem := state.queue.front }
      else { state with rItem := state.contention } := ⟨_, rfl⟩
  have writer : moved.writer = state.writer := by
    rw [moved_eq]
    split <;> rfl
  simp only [prefetch, ← moved_eq] at done
  split at done
  · cases reading <;> obtain ⟨rfl, rfl⟩ := Prod.mk.inj (Option.some_inj.mp done)
    · exact ⟨writer, Or.inr (Or.inr ⟨rfl, ⟨false, rfl⟩, rfl⟩)⟩
    · exact ⟨writer, Or.inr (Or.inl ⟨rfl, rfl, rfl⟩)⟩
  · cases reading <;> obtain ⟨rfl, rfl⟩ := Prod.mk.inj (Option.some_inj.mp done)
    · exact ⟨writer, Or.inr (Or.inr ⟨rfl, ⟨true, rfl⟩, rfl⟩)⟩
    · exact ⟨writer, Or.inl ⟨rfl, rfl, rfl⟩⟩

/-- One more step in a `CheckRead` that has begun or not. -/
theorem check_cases (within : state.reader = .idle ∨ state.reader = .checking false)
    (done : state.exec N (state.orReader .checkRead) = some (label, next)) :
    next.writer = state.writer ∧
      (label = none ∧ next.reader = .checking false ∨
        (∃ returned, label = some (.checkRead returned)) ∧ next.reader = .idle) := by
  rcases within with idle | checking
  · rw [orReader, idle, exec] at done
    simpa using checkRead_cases idle done
  · rw [orReader, checking, exec, readerStep, checking] at done
    obtain ⟨writer, cases⟩ := prefetch_cases done
    exact ⟨writer, Or.inr (by simpa using cases)⟩

/-- One more step in a `Read` that has begun or not. -/
theorem read_cases
    (within : state.reader = .idle ∨ state.reader = .checking true ∨ state.reader = .taking)
    (done : state.exec N (state.orReader .read) = some (label, next)) :
    next.writer = state.writer ∧
      (label = none ∧ (next.reader = .checking true ∨ next.reader = .taking) ∨
        ∃ value, label = some (.read value) ∧
          (next.reader = .idle ∨
            value ≠ none ∧ ∃ emptied, next.reader = .recycling emptied)) := by
  rcases within with idle | checking | taking
  · rw [orReader, idle, exec] at done
    obtain ⟨writer, cases⟩ := checkRead_cases idle done
    exact ⟨writer, Or.inl (by simpa using cases)⟩
  · rw [orReader, checking, exec, readerStep, checking] at done
    obtain ⟨writer, ⟨silent, -, taking⟩ | ⟨-, failed, idle⟩ | ⟨off, -⟩⟩ := prefetch_cases done
    · exact ⟨writer, Or.inl ⟨silent, Or.inr taking⟩⟩
    · exact ⟨writer, Or.inr ⟨none, failed, Or.inl idle⟩⟩
    · cases off
  · rw [orReader, taking, exec, readerStep, taking] at done
    obtain ⟨value, -, rest⟩ := Option.bind_eq_some_iff.mp done
    obtain ⟨⟨queue, emptied⟩, -, rest⟩ := Option.bind_eq_some_iff.mp rest
    obtain ⟨rfl, rfl⟩ := Prod.mk.inj (Option.some_inj.mp rest)
    refine ⟨rfl, Or.inr ⟨some value, rfl, ?_⟩⟩
    cases emptied with
    | none => exact Or.inl rfl
    | some emptied => exact Or.inr ⟨by simp, emptied, rfl⟩

/-- The last step of a `Read` that has emptied a chunk. -/
theorem recycle_cases {emptied : Addr} (recycling : state.reader = .recycling emptied)
    (done : state.exec N .reader = some (label, next)) :
    next.writer = state.writer ∧ label = none ∧ next.reader = .idle := by
  rw [exec, readerStep, recycling] at done
  obtain ⟨queue, -, rest⟩ := Option.bind_eq_some_iff.mp done
  obtain ⟨rfl, rfl⟩ := Prod.mk.inj (Option.some_inj.mp rest)
  exact ⟨rfl, rfl, rfl⟩

end SpscQueue

/-! ## The history of a pipe -/

namespace Pipe

/-- What has happened to a pipe. -/
structure History (α : Type) where
  /-- The messages written and not unwritten. -/
  written : List (Option α) := []
  /-- How many of them the last `Write` with `incomplete` false has completed. -/
  completed : Nat := 0
  /-- `Terminate` has written its marker. -/
  terminated : Bool := false
  /-- The messages returned by `Read`. -/
  returned : List α := []

namespace History

/-- What a label adds. -/
def next (history : History α) : PipeLabel α → History α
  | .write msg incomplete =>
      { history with
        written := history.written ++ [msg]
        completed := if incomplete then history.completed else history.written.length + 1 }
  | .unwrite (some _) => { history with written := history.written.dropLast }
  | .terminate => { history with terminated := true }
  | .read (some msg) => { history with returned := history.returned ++ [msg] }
  | .refused | .unwrite none | .flushed _ | .checkRead _ | .read none => history

/-- No incomplete message is pending when the marker is written. -/
def Settled (history : History α) : PipeLabel α → Prop
  | .terminate => history.completed = history.written.length
  | _ => True

end History

/-- The history of a trace. -/
def history (trace : List (PipeLabel α)) : History α := trace.foldl History.next {}

/-! ## The pipe follows its history -/

variable (pipe : Pipe α)

/-- The marker is in the queue. -/
def marked : Bool :=
  match pipe.writer with
  | .flushing .termination => true
  | _ => pipe.terminated

/-- What the queue has returned and `Read` has not, or never will. -/
def inHand : List (Option α) :=
  match pipe.reader with
  | .received (some value) _ => [value]
  | _ => if pipe.peerTerminated then [none] else []

/-- The writer's thread is in the call of the queue that its end is in. -/
def WriterWithin : Prop :=
  match pipe.writer with
  | .idle => pipe.queue.writer = .idle
  | .writing sending =>
      pipe.queue.writer = .idle ∨ pipe.queue.writer = .pushing sending.value sending.incomplete
  | .flushing _ =>
      pipe.queue.writer = .idle ∨ pipe.queue.writer = .flushing ∨ pipe.queue.writer = .storing

/-- The reader's thread is in the call of the queue that its end is in. -/
def ReaderWithin : Prop :=
  match pipe.reader with
  | .idle => pipe.queue.reader = .idle
  | .checking => pipe.queue.reader = .idle ∨ pipe.queue.reader = .checking false
  | .reading _ => pipe.queue.reader = .idle ∨ pipe.peerTerminated = false ∧
      (pipe.queue.reader = .checking true ∨ pipe.queue.reader = .taking)
  | .received _ _ => pipe.peerTerminated = false ∧
      (pipe.queue.reader = .idle ∨ ∃ emptied, pipe.queue.reader = .recycling emptied)

/-- A pipe agrees with its history and with the history of its queue. -/
structure Agrees (history : History α) (queued : SpscQueue.History (Option α)) : Prop where
  queue : pipe.queue.Refines granularity queued
  written : queued.written = history.written ++ if history.terminated then [none] else []
  completed : queued.completed =
    if history.terminated then history.written.length + 1 else history.completed
  settled : history.terminated = true → history.completed = history.written.length
  returned : queued.returned = history.returned.map some ++ pipe.inHand
  terminated : history.terminated = pipe.marked
  busy : pipe.writer ≠ .idle → pipe.terminated = false
  writer : pipe.WriterWithin
  reader : pipe.ReaderWithin

/-- A pipe agrees with its history. -/
def Refines (history : History α) : Prop := ∃ queued, pipe.Agrees history queued

/-- A step is defined and follows the history, when it is settled at the marker. -/
def Continues (history : History α) (result : Option (Option (PipeLabel α) × Pipe α)) : Prop :=
  ∃ label next, result = some (label, next) ∧
    match label with
    | none => next.Refines history
    | some label => history.Settled label → next.Refines (history.next label)

namespace Agrees

variable {pipe} {history : History α} {queued : SpscQueue.History (Option α)}

theorem queue_continues (agrees : pipe.Agrees history queued) {action : Action (Option α)}
    (enabled : pipe.queue.Enabled action) :
    SpscQueue.Continues granularity queued (pipe.queue.exec granularity action) := by
  obtain ⟨addr, last, inside⟩ := agrees.queue
  exact inside.continues (by decide) enabled

theorem writer_idle (agrees : pipe.Agrees history queued) (idle : pipe.writer = .idle) :
    pipe.queue.writer = .idle ∧ history.terminated = pipe.terminated := by
  have within := agrees.writer
  have terminated := agrees.terminated
  rw [WriterWithin, idle] at within
  rw [marked, idle] at terminated
  exact ⟨within, terminated⟩

/-- A silent step of the writing end leaves the reading end where it is. -/
theorem writer_silent (agrees : pipe.Agrees history queued) {queue : SpscQueue (Option α)}
    {queued' : SpscQueue.History (Option α)} (refines : queue.Refines granularity queued')
    (written : queued'.written = queued.written) (completed : queued'.completed = queued.completed)
    (returned : queued'.returned = queued.returned) (reader : queue.reader = pipe.queue.reader)
    (writer : ({ pipe with queue := queue } : Pipe α).WriterWithin) :
    ({ pipe with queue := queue } : Pipe α).Agrees history queued' :=
  { agrees with
    queue := refines
    written := written.trans agrees.written
    completed := completed.trans agrees.completed
    returned := returned.trans agrees.returned
    writer := writer
    reader := by simpa [ReaderWithin, reader] using agrees.reader }

theorem call_continues (agrees : pipe.Agrees history queued) (idle : pipe.writer = .idle)
    (running : pipe.terminated = false) (sending : Sending α) :
    ({ pipe with writer := .writing sending } : Pipe α).Refines history := by
  obtain ⟨within, terminated⟩ := agrees.writer_idle idle
  exact ⟨queued,
    { agrees with
      terminated := terminated
      busy := fun _ => running
      writer := Or.inl within }⟩

theorem unwrite_continues (agrees : pipe.Agrees history queued) (idle : pipe.writer = .idle) :
    Continues history pipe.unwrite := by
  obtain ⟨within, terminated⟩ := agrees.writer_idle idle
  have enabled : pipe.queue.Enabled .unwrite := within
  obtain ⟨label, queue, result, follows⟩ := agrees.queue_continues enabled
  obtain ⟨reader, writer, value, rfl⟩ := SpscQueue.unwrite_cases result
  obtain ⟨allowed, refines⟩ := follows
  have unwritten : pipe.unwrite = some (some (.unwrite value), { pipe with queue := queue }) := by
    simp [Pipe.unwrite, result]
  have writer' : ({ pipe with queue := queue } : Pipe α).WriterWithin := by
    rw [WriterWithin, idle]
    exact writer.trans within
  refine ⟨_, _, unwritten, fun _ => ⟨queued.next (.unwrite value), ?_⟩⟩
  cases value with
  | none => exact agrees.writer_silent refines rfl rfl rfl reader writer'
  | some value =>
      have running : history.terminated = false := by
        cases ended : history.terminated with
        | false => rfl
        | true =>
            have all := agrees.completed
            have whole := agrees.written
            rw [ended, if_pos rfl] at all whole
            have := allowed.1
            rw [all, whole, List.length_append, List.length_singleton] at this
            omega
      have written := agrees.written
      rw [running, if_neg nofun, List.append_nil] at written
      exact
        { agrees with
          queue := refines
          written := by simp [SpscQueue.History.next, History.next, running, written]
          completed := by
            simpa [SpscQueue.History.next, History.next, running] using agrees.completed
          settled := fun ended => absurd (running.symm.trans ended) nofun
          reader := by simpa [ReaderWithin, reader] using agrees.reader
          writer := writer' }

theorem writing_continues (agrees : pipe.Agrees history queued) {sending : Sending α} {fresh : Addr}
    (writing : pipe.writer = .writing sending) (unallocated : pipe.queue.queue.heap fresh = none) :
    Continues history (pipe.writerStep fresh) := by
  have within := agrees.writer
  have terminated := agrees.terminated
  rw [WriterWithin, writing] at within
  rw [marked, writing] at terminated
  have running := agrees.busy (by rw [writing]; nofun)
  have open_ : history.terminated = false := terminated.trans running
  have enabled : pipe.queue.Enabled
      (pipe.queue.orWriter (.write sending.value sending.incomplete) fresh) :=
    SpscQueue.enabled_orWriter id unallocated
  obtain ⟨label, queue, result, follows⟩ := agrees.queue_continues enabled
  obtain ⟨reader, ⟨rfl, pushing⟩ | ⟨rfl, idle⟩⟩ := SpscQueue.write_cases within result
  · refine ⟨none, { pipe with queue := queue }, ?_, queued,
      agrees.writer_silent follows rfl rfl rfl reader ?_⟩
    · simp [Pipe.writerStep, writing, result]
    · rw [WriterWithin, writing]
      exact Or.inr pushing
  · obtain ⟨_, refines⟩ := follows
    have written := agrees.written
    have completed := agrees.completed
    rw [open_, if_neg nofun] at completed
    rw [open_, if_neg nofun, List.append_nil] at written
    refine ⟨some (sent sending), _, by simp [Pipe.writerStep, writing, result]; rfl, fun settled =>
      ⟨queued.next (.write sending.value sending.incomplete), ?_⟩⟩
    have reader' : ∀ writer : PipeWriter α,
        ({ pipe with queue := queue, writer := writer } : Pipe α).ReaderWithin := by
      intro writer
      simpa [ReaderWithin, reader] using agrees.reader
    cases sending with
    | message msg incomplete =>
        exact
          { queue := refines
            written := by
              simp [SpscQueue.History.next, History.next, sent, open_, written, Sending.value]
            completed := by
              simp [SpscQueue.History.next, History.next, sent, open_, written, completed,
                Sending.incomplete]
            settled := fun ended => absurd (open_.symm.trans ended) nofun
            returned := agrees.returned
            terminated := by cases incomplete <;> exact terminated
            busy := fun _ => running
            writer := by cases incomplete <;> simp [WriterWithin, Sending.incomplete, idle]
            reader := reader' _ }
    | termination =>
        exact
          { queue := refines
            written := by simp [SpscQueue.History.next, History.next, sent, written, Sending.value]
            completed := by
              simp [SpscQueue.History.next, History.next, sent, written, Sending.incomplete]
            settled := fun _ => settled
            returned := agrees.returned
            terminated := rfl
            busy := fun _ => running
            writer := by simp [WriterWithin, Sending.incomplete, idle]
            reader := reader' _ }

theorem flushing_continues (agrees : pipe.Agrees history queued) {sending : Sending α}
    {fresh : Addr} (flushing : pipe.writer = .flushing sending)
    (unallocated : pipe.queue.queue.heap fresh = none) :
    Continues history (pipe.writerStep fresh) := by
  have within := agrees.writer
  have terminated := agrees.terminated
  rw [WriterWithin, flushing] at within
  rw [marked, flushing] at terminated
  have enabled : pipe.queue.Enabled (pipe.queue.orWriter .flush fresh) :=
    SpscQueue.enabled_orWriter id unallocated
  obtain ⟨label, queue, result, follows⟩ := agrees.queue_continues enabled
  obtain ⟨reader, ⟨rfl, inside⟩ | ⟨⟨returned, rfl⟩, idle⟩⟩ := SpscQueue.flush_cases within result
  · refine ⟨none, { pipe with queue := queue }, ?_, queued,
      agrees.writer_silent follows rfl rfl rfl reader ?_⟩
    · simp [Pipe.writerStep, flushing, result]
    · rw [WriterWithin, flushing]
      exact Or.inr inside
  · obtain ⟨_, refines⟩ := follows
    refine ⟨some (.flushed !returned), _, by simp [Pipe.writerStep, flushing, result]; rfl, fun _ =>
      ⟨queued.next (.flush returned), ?_⟩⟩
    have same : (queued.next (.flush returned)).written = queued.written ∧
        (queued.next (.flush returned)).completed = queued.completed ∧
        (queued.next (.flush returned)).returned = queued.returned := by
      rw [SpscQueue.History.next]
      split <;> exact ⟨rfl, rfl, rfl⟩
    exact
      { queue := refines
        written := same.1.trans agrees.written
        completed := same.2.1.trans agrees.completed
        settled := agrees.settled
        returned := same.2.2.trans agrees.returned
        terminated := by cases sending <;> exact terminated
        busy := fun off => absurd rfl off
        writer := idle
        reader := by simpa [ReaderWithin, reader] using agrees.reader }

/-- A step of the reading end leaves the writing end where it is. -/
theorem writer_kept (agrees : pipe.Agrees history queued) {queue : SpscQueue (Option α)}
    (writer : queue.writer = pipe.queue.writer) {peerTerminated : Bool} {reader : PipeReader α} :
    ({ pipe with queue := queue, peerTerminated := peerTerminated, reader := reader } :
      Pipe α).WriterWithin := by
  simpa [WriterWithin, writer] using agrees.writer

theorem checkRead_continues (agrees : pipe.Agrees history queued) (idle : pipe.reader = .idle) :
    Continues history (some pipe.checkRead) := by
  have within := agrees.reader
  have returned := agrees.returned
  rw [ReaderWithin, idle] at within
  rw [inHand, idle] at returned
  by_cases ended : pipe.peerTerminated = true
  · exact ⟨some (.checkRead false), pipe, congrArg some (if_pos ended), fun _ => ⟨queued, agrees⟩⟩
  · refine ⟨none, { pipe with reader := .checking }, congrArg some (if_neg ended), queued, ?_⟩
    exact { agrees with returned := returned, reader := Or.inl within }

theorem read_continues (agrees : pipe.Agrees history queued) (idle : pipe.reader = .idle)
    (timeout : Int) : Continues history (some (pipe.read timeout)) := by
  have within := agrees.reader
  have returned := agrees.returned
  rw [ReaderWithin, idle] at within
  rw [inHand, idle] at returned
  exact ⟨_, _, rfl, queued, { agrees with returned := returned, reader := Or.inl within }⟩

theorem checking_continues (agrees : pipe.Agrees history queued)
    (checking : pipe.reader = .checking) :
    Continues history pipe.readerStep := by
  have within := agrees.reader
  have held := agrees.returned
  rw [ReaderWithin, checking] at within
  rw [inHand, checking] at held
  have enabled : pipe.queue.Enabled (pipe.queue.orReader .checkRead) :=
    SpscQueue.enabled_orReader id
  obtain ⟨label, queue, result, follows⟩ := agrees.queue_continues enabled
  obtain ⟨writer, ⟨rfl, inside⟩ | ⟨⟨returned, rfl⟩, idle⟩⟩ := SpscQueue.check_cases within result
  · refine ⟨none, { pipe with queue := queue }, by simp [Pipe.readerStep, checking, result], queued,
      { agrees with
        queue := follows
        writer := agrees.writer_kept writer
        reader := ?_ }⟩
    rw [ReaderWithin, checking]
    exact Or.inr inside
  · obtain ⟨_, refines⟩ := follows
    refine ⟨some (.checkRead returned), { pipe with queue := queue, reader := .idle },
      by simp [Pipe.readerStep, checking, result], fun _ => ⟨queued.next (.checkRead returned), ?_⟩⟩
    exact
      { agrees with
        queue := refines
        written := by cases returned <;> exact agrees.written
        completed := by cases returned <;> exact agrees.completed
        returned := by cases returned <;> exact held
        writer := agrees.writer_kept writer
        reader := idle }

theorem reading_continues (agrees : pipe.Agrees history queued) {others : Option Nat}
    (reading : pipe.reader = .reading others) : Continues history pipe.readerStep := by
  have within := agrees.reader
  have held := agrees.returned
  rw [ReaderWithin, reading] at within
  rw [inHand, reading] at held
  cases ended : pipe.peerTerminated with
  | true =>
      have idle : pipe.queue.reader = .idle := by simpa [ended] using within
      refine ⟨some (.read none), { pipe with reader := .idle },
        by simp [Pipe.readerStep, reading, ended], fun _ => ⟨queued, ?_⟩⟩
      exact { agrees with returned := held, reader := idle }
  | false =>
      have within' : pipe.queue.reader = .idle ∨ pipe.queue.reader = .checking true ∨
          pipe.queue.reader = .taking := by simpa [ended] using within
      have enabled : pipe.queue.Enabled (pipe.queue.orReader .read) :=
        SpscQueue.enabled_orReader id
      obtain ⟨label, queue, result, follows⟩ := agrees.queue_continues enabled
      obtain ⟨writer, ⟨rfl, inside⟩ | ⟨value, rfl, after⟩⟩ := SpscQueue.read_cases within' result
      · refine ⟨none, { pipe with queue := queue },
          by simp [Pipe.readerStep, reading, ended, result], queued,
          { agrees with
            queue := follows
            writer := agrees.writer_kept writer
            reader := ?_ }⟩
        rw [ReaderWithin, reading]
        exact Or.inr ⟨ended, inside⟩
      · obtain ⟨_, refines⟩ := follows
        refine ⟨none, { pipe with queue := queue, reader := .received value others },
          by simp [Pipe.readerStep, reading, ended, result], queued.next (.read value), ?_⟩
        exact
          { agrees with
            queue := refines
            written := by cases value <;> exact agrees.written
            completed := by cases value <;> exact agrees.completed
            returned := by
              cases value <;> simp [SpscQueue.History.next, inHand, held, ended]
            writer := agrees.writer_kept writer
            reader := ⟨ended, after.imp_right And.right⟩ }

theorem received_continues (agrees : pipe.Agrees history queued) {value : Option (Option α)}
    {others : Option Nat} (received : pipe.reader = .received value others) :
    Continues history pipe.readerStep := by
  have within := agrees.reader
  have held := agrees.returned
  rw [ReaderWithin, received] at within
  rw [inHand, received] at held
  obtain ⟨running, idle | ⟨emptied, recycling⟩⟩ := within
  · have result : pipe.readerStep = some (pipe.conclude value others) := by
      simp [Pipe.readerStep, received, idle]
    rw [result]
    match value, others with
    | some (some msg), _ =>
        refine ⟨_, _, rfl, fun _ => ⟨queued, ?_⟩⟩
        exact
          { agrees with
            returned := by simp [History.next, inHand, held, running]
            reader := idle }
    | some none, _ =>
        refine ⟨_, _, rfl, fun _ => ⟨queued, ?_⟩⟩
        exact { agrees with returned := held, reader := idle }
    | none, some 0 =>
        refine ⟨_, _, rfl, fun _ => ⟨queued, ?_⟩⟩
        exact { agrees with returned := held, reader := idle }
    | none, some (others + 1) =>
        refine ⟨_, _, rfl, queued, ?_⟩
        exact { agrees with returned := held, reader := Or.inl idle }
    | none, none =>
        refine ⟨_, _, rfl, queued, ?_⟩
        exact { agrees with returned := held, reader := Or.inl idle }
  · have enabled : pipe.queue.Enabled .reader :=
      fun idle => absurd (recycling.symm.trans idle) nofun
    obtain ⟨label, queue, result, follows⟩ := agrees.queue_continues enabled
    obtain ⟨writer, rfl, idle⟩ := SpscQueue.recycle_cases recycling result
    refine ⟨none, { pipe with queue := queue },
      by simp [Pipe.readerStep, received, recycling, result], queued,
      { agrees with
        queue := follows
        writer := agrees.writer_kept writer
        reader := ?_ }⟩
    rw [ReaderWithin, received]
    exact ⟨running, Or.inl idle⟩

/-- Whatever an agreeing pipe can do next is defined and follows its history. -/
theorem continues (agrees : pipe.Agrees history queued) {action : PipeAction α}
    (enabled : pipe.Enabled action) : Continues history (pipe.exec action) := by
  cases action with
  | write msg incomplete =>
      cases ended : pipe.terminated with
      | true =>
          exact ⟨some .refused, pipe, congrArg some (if_pos ended), fun _ => ⟨queued, agrees⟩⟩
      | false =>
          exact ⟨none, _, congrArg some (if_neg (by simp [ended])),
            agrees.call_continues enabled ended (.message msg incomplete)⟩
  | unwrite => exact agrees.unwrite_continues enabled
  | terminate =>
      cases ended : pipe.terminated with
      | true => exact ⟨none, pipe, congrArg some (if_pos ended), queued, agrees⟩
      | false =>
          exact ⟨none, _, congrArg some (if_neg (by simp [ended])),
            agrees.call_continues enabled ended .termination⟩
  | checkRead => exact agrees.checkRead_continues enabled
  | read timeout => exact agrees.read_continues enabled timeout
  | writer fresh =>
      obtain ⟨busy, unallocated⟩ := enabled
      cases writer : pipe.writer with
      | idle => exact absurd writer busy
      | writing sending => exact agrees.writing_continues writer unallocated
      | flushing sending => exact agrees.flushing_continues writer unallocated
  | reader =>
      cases reader : pipe.reader with
      | idle => exact absurd reader enabled
      | checking => exact agrees.checking_continues reader
      | reading others => exact agrees.reading_continues reader
      | received value others => exact agrees.received_continues reader

/-- What was returned is a prefix of what was completed. -/
theorem delivered (agrees : pipe.Agrees history queued) :
    history.returned.map some <+: history.written.take history.completed := by
  obtain ⟨addr, last, inside⟩ := agrees.queue
  obtain ⟨returned, returned_le, flushed_le, completed_le, _⟩ := inside.orderly
  have mine : history.returned.map some <+: queued.returned :=
    ⟨pipe.inHand, agrees.returned.symm⟩
  have ordered := mine.trans returned
  have written := agrees.written
  have completed := agrees.completed
  cases ended : history.terminated with
  | false =>
      rw [ended, if_neg nofun, List.append_nil] at written
      rw [ended, if_neg nofun] at completed
      rw [written] at ordered
      exact List.prefix_take_iff.mpr ⟨ordered, by have := mine.length_le; omega⟩
  | true =>
      rw [ended, if_pos rfl] at written
      rw [agrees.settled ended, List.take_length]
      rw [written] at ordered
      rcases List.prefix_concat_iff.mp ordered with whole | within
      · have marker : none ∈ history.returned.map some := by simp [whole]
        simp at marker
      · exact within

end Agrees

/-- A pipe after `CreatePipePair`. -/
def Initial (pipe : Pipe α) : Prop :=
  ∃ fresh fresh', fresh' ≠ fresh ∧ create fresh fresh' = some pipe

theorem Initial.refines {pipe : Pipe α} (initial : Initial pipe) : pipe.Refines {} := by
  obtain ⟨fresh, fresh', distinct, created⟩ := initial
  rw [create] at created
  obtain ⟨queue, set_up, rest⟩ := Option.bind_eq_some_iff.mp created
  obtain rfl := Option.some_inj.mp rest
  have start : SpscQueue.Initial granularity queue := ⟨fresh, fresh', distinct, set_up⟩
  exact ⟨{},
    { queue := start.refines (by decide)
      written := rfl
      completed := rfl
      settled := nofun
      returned := rfl
      terminated := rfl
      busy := fun off => absurd rfl off
      writer := start.idle.1
      reader := start.idle.2 }⟩

/-- The pipe follows its history when it is settled at the marker. -/
theorem simulation : Simulation (Step (α := α)) History.Settled (fun _ _ => True) History.next
    Refines where
  silent := by
    rintro pipe next history ⟨queued, agrees⟩ ⟨action, enabled, done⟩
    obtain ⟨label, next', result, follows⟩ := agrees.continues enabled
    obtain ⟨rfl, rfl⟩ := Prod.mk.inj (Option.some_inj.mp (result.symm.trans done))
    exact follows
  visible := by
    rintro pipe next history label ⟨queued, agrees⟩ ⟨action, enabled, done⟩ settled
    obtain ⟨label', next', result, follows⟩ := agrees.continues enabled
    obtain ⟨rfl, rfl⟩ := Prod.mk.inj (Option.some_inj.mp (result.symm.trans done))
    exact ⟨trivial, follows settled⟩

/-! ## After the marker -/

/-- No `DoRead` has anything in its hands. -/
def HandsFree (pipe : Pipe α) : Prop := ∀ value others, pipe.reader ≠ .received value others

theorem reader_cases {pipe next : Pipe α} {label : Option (PipeLabel α)}
    (step : Step pipe label next) :
    next.reader = pipe.reader ∧ next.peerTerminated = pipe.peerTerminated ∧
        (∀ msg, label ≠ some (.read msg)) ∨
      next.HandsFree ∧ next.peerTerminated = pipe.peerTerminated ∧
        (∀ msg, label ≠ some (.read (some msg))) ∨
      pipe.peerTerminated = false ∧ next.peerTerminated = false ∨
      next.HandsFree ∧ ¬pipe.HandsFree := by
  obtain ⟨action, enabled, done⟩ := step
  cases action with
  | write msg incomplete =>
      rw [exec, Pipe.write] at done
      split at done <;> obtain ⟨rfl, rfl⟩ := Prod.mk.inj (Option.some_inj.mp done)
      · exact Or.inl ⟨rfl, rfl, nofun⟩
      · exact Or.inl ⟨rfl, rfl, nofun⟩
  | unwrite =>
      rw [exec, Pipe.unwrite] at done
      obtain ⟨⟨label', queue⟩, -, rest⟩ := Option.bind_eq_some_iff.mp done
      split at rest <;> obtain ⟨rfl, rfl⟩ := Prod.mk.inj (Option.some_inj.mp rest)
      · exact Or.inl ⟨rfl, rfl, nofun⟩
      · exact Or.inl ⟨rfl, rfl, nofun⟩
  | terminate =>
      rw [exec, Pipe.terminate] at done
      split at done <;> obtain ⟨rfl, rfl⟩ := Prod.mk.inj (Option.some_inj.mp done)
      · exact Or.inl ⟨rfl, rfl, nofun⟩
      · exact Or.inl ⟨rfl, rfl, nofun⟩
  | checkRead =>
      rw [exec, Pipe.checkRead] at done
      split at done <;> obtain ⟨rfl, rfl⟩ := Prod.mk.inj (Option.some_inj.mp done)
      · exact Or.inl ⟨rfl, rfl, nofun⟩
      · exact Or.inr (Or.inl ⟨nofun, rfl, nofun⟩)
  | read timeout =>
      obtain ⟨rfl, rfl⟩ := Prod.mk.inj (Option.some_inj.mp done)
      exact Or.inr (Or.inl ⟨nofun, rfl, nofun⟩)
  | writer fresh =>
      rw [exec, writerStep] at done
      split at done
      · exact absurd done nofun
      · obtain ⟨⟨label', queue⟩, -, rest⟩ := Option.bind_eq_some_iff.mp done
        rename_i sending _
        split at rest <;> obtain ⟨rfl, rfl⟩ := Prod.mk.inj (Option.some_inj.mp rest)
        · exact Or.inl ⟨rfl, rfl, nofun⟩
        · exact Or.inl ⟨rfl, rfl, by cases sending <;> nofun⟩
      · obtain ⟨⟨label', queue⟩, -, rest⟩ := Option.bind_eq_some_iff.mp done
        split at rest <;> obtain ⟨rfl, rfl⟩ := Prod.mk.inj (Option.some_inj.mp rest)
        · exact Or.inl ⟨rfl, rfl, nofun⟩
        · exact Or.inl ⟨rfl, rfl, nofun⟩
  | reader =>
      rw [exec, readerStep] at done
      split at done
      · exact absurd done nofun
      · obtain ⟨⟨label', queue⟩, -, rest⟩ := Option.bind_eq_some_iff.mp done
        split at rest <;> obtain ⟨rfl, rfl⟩ := Prod.mk.inj (Option.some_inj.mp rest)
        · exact Or.inr (Or.inl ⟨nofun, rfl, nofun⟩)
        · exact Or.inl ⟨rfl, rfl, nofun⟩
      · split at done
        · obtain ⟨rfl, rfl⟩ := Prod.mk.inj (Option.some_inj.mp done)
          exact Or.inr (Or.inl ⟨nofun, rfl, nofun⟩)
        · rename_i running
          obtain ⟨⟨label', queue⟩, -, rest⟩ := Option.bind_eq_some_iff.mp done
          split at rest <;> obtain ⟨rfl, rfl⟩ := Prod.mk.inj (Option.some_inj.mp rest)
          · exact Or.inr (Or.inr (Or.inl ⟨by simpa using running, by simpa using running⟩))
          · exact Or.inl ⟨rfl, rfl, nofun⟩
      · rename_i value others received
        split at done
        · refine Or.inr (Or.inr (Or.inr ⟨?_, fun free => free value others received⟩))
          have concluded := Option.some_inj.mp done
          unfold conclude at concluded
          split at concluded <;> obtain ⟨rfl, rfl⟩ := Prod.mk.inj concluded <;> exact nofun
        · obtain ⟨⟨label', queue⟩, -, rest⟩ := Option.bind_eq_some_iff.mp done
          obtain ⟨rfl, rfl⟩ := Prod.mk.inj (Option.some_inj.mp rest)
          exact Or.inl ⟨rfl, rfl, nofun⟩

/-- Once the marker has been read nothing is in hand. -/
theorem handsFree_of_ended {start pipe : Pipe α} {trace : List (PipeLabel α)}
    (initial : Initial start) (run : Run Step start trace pipe) :
    pipe.peerTerminated = true → pipe.HandsFree := by
  have kept : ∀ pipe label next, (pipe.peerTerminated = true → pipe.HandsFree) →
      Step (α := α) pipe label next → next.peerTerminated = true → next.HandsFree := by
    intro pipe label next before step ended
    rcases reader_cases step with ⟨reader, same, -⟩ | ⟨free, -⟩ | ⟨-, running⟩ | ⟨free, -⟩
    · rw [HandsFree, reader]
      exact before (same.symm.trans ended)
    · exact free
    · exact absurd (running.symm.trans ended) nofun
    · exact free
  induction run with
  | nil =>
      obtain ⟨fresh, fresh', -, created⟩ := initial
      rw [create] at created
      obtain ⟨queue, -, rest⟩ := Option.bind_eq_some_iff.mp created
      obtain rfl := Option.some_inj.mp rest
      exact nofun
  | silent _ step ih => exact kept _ _ _ ih step
  | visible _ step ih => exact kept _ _ _ ih step

/-- Once the marker has been read, no `Read` returns a message any more. -/
theorem silence {pipe final : Pipe α} {later : List (PipeLabel α)}
    (ended : pipe.peerTerminated = true) (free : pipe.HandsFree) (run : Run Step pipe later final) :
    final.peerTerminated = true ∧ final.HandsFree ∧ ∀ msg, .read (some msg) ∉ later := by
  have kept : ∀ pipe label next, pipe.peerTerminated = true ∧ pipe.HandsFree →
      Step (α := α) pipe label next → (next.peerTerminated = true ∧ next.HandsFree) ∧
        ∀ msg, label ≠ some (.read (some msg)) := by
    rintro pipe label next ⟨ended, free⟩ step
    rcases reader_cases step with
      ⟨reader, same, quiet⟩ | ⟨free', same, quiet⟩ | ⟨running, -⟩ | ⟨-, busy⟩
    · refine ⟨⟨same.trans ended, ?_⟩, fun msg => quiet _⟩
      rw [HandsFree, reader]
      exact free
    · exact ⟨⟨same.trans ended, free'⟩, quiet⟩
    · exact absurd (running.symm.trans ended) nofun
    · exact absurd free busy
  induction run with
  | nil => exact ⟨ended, free, fun msg => List.not_mem_nil⟩
  | silent _ step ih =>
      obtain ⟨ended, free, quiet⟩ := ih
      obtain ⟨⟨ended', free'⟩, -⟩ := kept _ _ _ ⟨ended, free⟩ step
      exact ⟨ended', free', quiet⟩
  | visible _ step ih =>
      obtain ⟨ended, free, quiet⟩ := ih
      obtain ⟨⟨ended', free'⟩, here⟩ := kept _ _ _ ⟨ended, free⟩ step
      refine ⟨ended', free', fun msg among => ?_⟩
      rcases List.mem_append.mp among with earlier | last
      · exact quiet msg earlier
      · exact here msg (congrArg some (List.mem_singleton.mp last).symm)

/-- What a pipe owes to its two ends after a run. -/
structure Contract (trace : List (PipeLabel α)) (pipe : Pipe α) : Prop where
  /-- What `Read` has returned is a prefix of what a `Write` has completed. -/
  delivered : (history trace).returned.map some <+:
    (history trace).written.take (history trace).completed
  /-- Once the marker has been read every `Read` returns -1. -/
  silent : pipe.peerTerminated = true → ∀ later final, Run Step pipe later final →
    ∀ resMsg, .read resMsg ∈ later → resMsg = none

/-- Every run in which no incomplete message is pending at `Terminate` meets the contract. -/
theorem contract_of_settled {start pipe : Pipe α} {trace : List (PipeLabel α)}
    (initial : Initial start) (run : Run Step start trace pipe)
    (settled : ∀ before after, trace = before ++ .terminate :: after →
      (history before).completed = (history before).written.length) : Contract trace pipe := by
  have throughout : Throughout History.Settled History.next {} trace := by
    intro before label after split
    cases label with
    | terminate => exact settled before after split
    | _ => exact trivial
  obtain ⟨⟨queued, agrees⟩, -⟩ := simulation.follows initial.refines run throughout
  refine ⟨agrees.delivered, fun ended later final further resMsg among => ?_⟩
  obtain ⟨-, -, quiet⟩ := silence ended (handsFree_of_ended initial run ended) further
  cases resMsg with
  | none => rfl
  | some msg => exact absurd among (quiet msg)

/-- A message that was completed before `Terminate`; it is read, and after it the marker. -/
theorem contract_of_one_message :
    ∃ start pipe, Initial start ∧
      Run Step start [.write (some 5) false, .flushed false, .terminate, .flushed false,
        .read (some 5), .read none] pipe ∧ pipe.peerTerminated = true ∧
      Contract [.write (some 5) false, .flushed false, .terminate, .flushed false,
        .read (some 5), .read none] pipe := by
  have initial : Initial ((create (α := Nat) 0 1).get rfl) := ⟨0, 1, by decide, rfl⟩
  have written : Run Step ((create (α := Nat) 0 1).get rfl)
      ([] ++ [PipeLabel.write (some 5) false]) _ :=
    (Run.nil.silent ⟨.write (some 5) false, rfl, rfl⟩).visible ⟨.writer 2, ⟨nofun, rfl⟩, rfl⟩
  have flushed : Run Step _ (_ ++ [PipeLabel.flushed false]) _ :=
    (written.silent ⟨.writer 2, ⟨nofun, rfl⟩, rfl⟩).visible ⟨.writer 2, ⟨nofun, rfl⟩, rfl⟩
  have marked : Run Step _ (_ ++ [PipeLabel.terminate]) _ :=
    (flushed.silent ⟨.terminate, rfl, rfl⟩).visible ⟨.writer 2, ⟨nofun, rfl⟩, rfl⟩
  have told : Run Step _ (_ ++ [PipeLabel.flushed false]) _ :=
    (marked.silent ⟨.writer 2, ⟨nofun, rfl⟩, rfl⟩).visible ⟨.writer 2, ⟨nofun, rfl⟩, rfl⟩
  have received : Run Step _ (_ ++ [PipeLabel.read (some 5)]) _ :=
    ((((told.silent ⟨.read 0, rfl, rfl⟩).silent ⟨.reader, nofun, rfl⟩).silent
      ⟨.reader, nofun, rfl⟩).silent ⟨.reader, nofun, rfl⟩).visible ⟨.reader, nofun, rfl⟩
  have ended : Run Step _ (_ ++ [PipeLabel.read none]) _ :=
    (((received.silent ⟨.read 0, rfl, rfl⟩).silent ⟨.reader, nofun, rfl⟩).silent
      ⟨.reader, nofun, rfl⟩).visible ⟨.reader, nofun, rfl⟩
  refine ⟨_, _, initial, ended, rfl,
    contract_of_settled initial ended fun before after split => ?_⟩
  rcases before with _ | ⟨first, _ | ⟨second, _ | ⟨third, rest⟩⟩⟩
  · simp at split
  · simp at split
  · simp at split
    obtain ⟨rfl, rfl, _⟩ := split
    rfl
  · have later := (List.cons.inj (List.cons.inj (List.cons.inj split).2).2).2
    have member : PipeLabel.terminate ∈ [PipeLabel.flushed false, .read (some 5), .read none] := by
      rw [later]
      simp
    simp at member

/-- `Write` of an incomplete message, `Terminate` and `Read`: the message is delivered. -/
theorem incomplete_message_delivered :
    ¬∀ (start pipe : Pipe Nat) (trace : List (PipeLabel Nat)), Initial start →
      Run Step start trace pipe → Contract trace pipe := by
  intro claimed
  have initial : Initial ((create (α := Nat) 0 1).get rfl) := ⟨0, 1, by decide, rfl⟩
  have written : Run Step ((create (α := Nat) 0 1).get rfl)
      ([] ++ [PipeLabel.write (some 5) true]) _ :=
    (Run.nil.silent ⟨.write (some 5) true, rfl, rfl⟩).visible ⟨.writer 2, ⟨nofun, rfl⟩, rfl⟩
  have marked : Run Step _ (_ ++ [PipeLabel.terminate]) _ :=
    (written.silent ⟨.terminate, rfl, rfl⟩).visible ⟨.writer 2, ⟨nofun, rfl⟩, rfl⟩
  have flushed : Run Step _ (_ ++ [PipeLabel.flushed false]) _ :=
    (marked.silent ⟨.writer 2, ⟨nofun, rfl⟩, rfl⟩).visible ⟨.writer 2, ⟨nofun, rfl⟩, rfl⟩
  have received := (((flushed.silent ⟨.read 0, rfl, rfl⟩).silent ⟨.reader, nofun, rfl⟩).silent
    ⟨.reader, nofun, rfl⟩).silent ⟨.reader, nofun, rfl⟩
  have returned : Run Step _ (_ ++ [PipeLabel.read (some 5)]) _ :=
    received.visible ⟨.reader, nofun, rfl⟩
  have delivered := (claimed _ _ _ initial returned).delivered
  exact absurd delivered (by decide)

end Pipe

end FlashForwarder
