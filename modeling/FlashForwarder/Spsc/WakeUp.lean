import FlashForwarder.Spsc.PipeContract

/-!
# Waiting for a message

`Read` locks `mutex_` when its first `DoRead` fails, and waits on `condition_` when the next one
fails too.  `Write` and `Terminate` lock `mutex_` only to notify, and only when `Flush` has told
them that the reader is asleep.  The steps of the pipe are joined here by every lock, wait and
notification.
-/

namespace FlashForwarder

open Transition

variable {α : Type}

/-- Where the reading end is between the `DoRead`s of a `Read`. -/
inductive Blocking where
  /-- It does not hold `mutex_`. -/
  | free
  /-- It is about to lock `mutex_`. -/
  | locking
  /-- It holds `mutex_`. -/
  | locked
  /-- It is blocked in the wait on `condition_`, which has released `mutex_`. -/
  | waiting
  /-- It has been woken and is about to lock `mutex_` again. -/
  | woken
  deriving DecidableEq

/-- Where the writing end is in `SendReadActivated`. -/
inductive Activating where
  /-- It is not in it. -/
  | none
  /-- It is about to lock `mutex_`. -/
  | locking
  /-- It holds `mutex_` and is about to notify. -/
  | locked
  /-- It holds `mutex_` and has notified. -/
  | notified
  deriving DecidableEq

theorem Activating.none_ne_locked : Activating.none ≠ .locked := by decide

theorem Activating.none_ne_notified : Activating.none ≠ .notified := by decide

/-- One direction of a pipe pair, with what its two ends do about `mutex_` and `condition_`. -/
structure WaitingPipe (α : Type) where
  /-- The queue and the two ends. -/
  pipe : Pipe α
  /-- The reading end. -/
  blocking : Blocking
  /-- The writing end. -/
  activating : Activating

/-- A call, or one more step of an end that is inside one. -/
inductive WaitingAction (α : Type) where
  /-- `Write`, either overload, with `incomplete` false. -/
  | write (msg : Option α)
  | terminate
  /-- `Write` or `Terminate` goes on in the queue. -/
  | writer (fresh : Addr)
  /-- `SendReadActivated` goes on. -/
  | activate
  | checkRead
  | read (timeout : Int)
  /-- `CheckRead` or a `DoRead` goes on. -/
  | reader
  /-- The reading end locks `mutex_`, for the first time or after a wait. -/
  | lock
  /-- The wait ends without a notification: at its timeout, or for no reason. -/
  | wake

namespace WaitingPipe

/-- One direction of `CreatePipePair`. -/
def create (fresh fresh' : Addr) : Option (WaitingPipe α) :=
  (Pipe.create fresh fresh').map fun pipe => ⟨pipe, .free, .none⟩

variable (state : WaitingPipe α)

/-- An end makes a call when it is in none, goes on when it is not blocked, and locks `mutex_` when
the other end does not hold it. -/
def Enabled : WaitingAction α → Prop
  | .write _ | .terminate => state.pipe.writer = .idle ∧ state.activating = .none
  | .writer fresh => state.pipe.Enabled (.writer fresh) ∧ state.activating = .none
  | .activate =>
      state.activating ≠ .none ∧ (state.activating = .locking → state.blocking ≠ .locked)
  | .checkRead | .read _ => state.pipe.reader = .idle
  | .reader => state.pipe.reader ≠ .idle ∧ (state.blocking = .free ∨ state.blocking = .locked)
  | .lock => (state.blocking = .locking ∨ state.blocking = .woken) ∧
      state.activating ≠ .locked ∧ state.activating ≠ .notified
  | .wake => state.blocking = .waiting

/-- `SendReadActivated`, after the listener was told. -/
def activate : WaitingPipe α :=
  match state.activating with
  | .none => state
  | .locking => { state with activating := .locked }
  | .locked =>
      { state with
        activating := .notified
        blocking := if state.blocking = .waiting then .woken else state.blocking }
  | .notified => { state with activating := .none }

/-- What a step of the reading end in the queue means for the lock: the call returns and unlocks
what it has locked, or a `DoRead` that was not the last has failed. -/
def unblocked (next : Pipe α) : Blocking :=
  match state.pipe.reader, next.reader with
  | _, .idle => .free
  | .received _ _, .reading _ => if state.blocking = .locked then .waiting else .locking
  | _, _ => state.blocking

/-- What an action does, unless its behaviour is undefined.  A `Terminate` sets `terminated_` after
`SendReadActivated`, but no call begins before that. -/
def exec : WaitingAction α → Option (Option (PipeLabel α) × WaitingPipe α)
  | .write msg => do
      let (label, pipe) ← state.pipe.exec (.write msg false)
      return (label, { state with pipe := pipe })
  | .terminate => do
      let (label, pipe) ← state.pipe.exec .terminate
      return (label, { state with pipe := pipe })
  | .writer fresh => do
      let (label, pipe) ← state.pipe.exec (.writer fresh)
      return (label,
        { state with
          pipe := pipe
          activating := match label with
            | some (.flushed true) => .locking
            | _ => state.activating })
  | .activate => some (none, state.activate)
  | .checkRead => do
      let (label, pipe) ← state.pipe.exec .checkRead
      return (label, { state with pipe := pipe })
  | .read timeout => do
      let (label, pipe) ← state.pipe.exec (.read timeout)
      return (label, { state with pipe := pipe })
  | .reader => do
      let (label, pipe) ← state.pipe.exec .reader
      return (label, { state with pipe := pipe, blocking := state.unblocked pipe })
  | .lock => some (none, { state with blocking := .locked })
  | .wake => some (none, { state with blocking := .woken })

/-- One step of either end. -/
def Step (state : WaitingPipe α) (label : Option (PipeLabel α)) (next : WaitingPipe α) : Prop :=
  ∃ action, state.Enabled action ∧ state.exec action = some (label, next)

/-- A pipe after `CreatePipePair`. -/
def Initial (state : WaitingPipe α) : Prop :=
  state.pipe.Initial ∧ state.blocking = .free ∧ state.activating = .none

end WaitingPipe

/-! ## What a step in the queue does to its pointers -/

namespace SpscQueue

variable {N : Nat} {state next : SpscQueue α} {label : Option (Label α)} {value : α}
  {incomplete reading : Bool} {fresh : Addr}

theorem write_contention
    (within : state.writer = .idle ∨ state.writer = .pushing value incomplete)
    (done : state.exec N (state.orWriter (.write value incomplete) fresh) = some (label, next)) :
    next.contention = state.contention := by
  rcases within with idle | pushing
  · rw [orWriter, idle] at done
    obtain ⟨queue, -, rest⟩ := Option.bind_eq_some_iff.mp done
    dsimp only at rest
    split at rest <;> obtain ⟨rfl, rfl⟩ := Prod.mk.inj (Option.some_inj.mp rest) <;> rfl
  · rw [orWriter, pushing, exec, writerStep, pushing] at done
    obtain ⟨queue, -, rest⟩ := Option.bind_eq_some_iff.mp done
    obtain ⟨rfl, rfl⟩ := Prod.mk.inj (Option.some_inj.mp rest)
    rfl

/-- A null `contention_` stays null until `Flush` returns false. -/
theorem flush_contention
    (within : state.writer = .idle ∨ state.writer = .flushing ∨ state.writer = .storing)
    (pointing : state.writer = .flushing → state.wItem ≠ none) (asleep : state.contention = none)
    (done : state.exec N (state.orWriter .flush fresh) = some (label, next)) :
    next.contention = none ∨ label = some (.flush false) := by
  rcases within with idle | flushing | storing
  · rw [orWriter, idle, exec, flush] at done
    split at done <;> obtain ⟨rfl, rfl⟩ := Prod.mk.inj (Option.some_inj.mp done)
    · exact Or.inl asleep
    · exact Or.inl asleep
  · rw [orWriter, flushing, exec, writerStep, flushing] at done
    have fails : state.contention ≠ state.wItem := fun same =>
      pointing flushing (same.symm.trans asleep)
    dsimp only at done
    rw [if_neg fails] at done
    obtain ⟨rfl, rfl⟩ := Prod.mk.inj (Option.some_inj.mp done)
    exact Or.inl asleep
  · rw [orWriter, storing, exec, writerStep, storing] at done
    obtain ⟨rfl, rfl⟩ := Prod.mk.inj (Option.some_inj.mp done)
    exact Or.inr rfl

theorem flush_settles
    (within : state.writer = .idle ∨ state.writer = .flushing ∨ state.writer = .storing)
    {returned : Bool}
    (done : state.exec N (state.orWriter .flush fresh) = some (some (.flush returned), next)) :
    next.wItem = next.fItem := by
  rcases within with idle | flushing | storing
  · rw [orWriter, idle, exec, flush] at done
    split at done <;> obtain ⟨same, rfl⟩ := Prod.mk.inj (Option.some_inj.mp done)
    · assumption
    · cases same
  · rw [orWriter, flushing, exec, writerStep, flushing] at done
    dsimp only at done
    split at done <;> obtain ⟨same, rfl⟩ := Prod.mk.inj (Option.some_inj.mp done)
    · rfl
    · cases same
  · rw [orWriter, storing, exec, writerStep, storing] at done
    obtain ⟨-, rfl⟩ := Prod.mk.inj (Option.some_inj.mp done)
    rfl

/-- The compare-and-swap of a `Read` that fails leaves `contention_` null. -/
theorem prefetch_pointers (done : state.prefetch reading = some (label, next)) :
    next.wItem = state.wItem ∧ next.fItem = state.fItem ∧
      (label = some (.read none) → next.contention = none) := by
  by_cases caught : state.contention = state.queue.front
  · simp only [prefetch, caught, if_true, true_or] at done
    obtain ⟨rfl, rfl⟩ := Prod.mk.inj (Option.some_inj.mp done)
    exact ⟨rfl, rfl, fun _ => rfl⟩
  · simp only [prefetch, caught, if_false] at done
    split at done
    · rename_i nothing
      obtain ⟨rfl, rfl⟩ := Prod.mk.inj (Option.some_inj.mp done)
      refine ⟨rfl, rfl, fun _ => ?_⟩
      rcases nothing with same | gone
      · exact absurd same.symm caught
      · exact gone
    · cases reading <;> obtain ⟨rfl, rfl⟩ := Prod.mk.inj (Option.some_inj.mp done)
      · exact ⟨rfl, rfl, (by simp)⟩
      · exact ⟨rfl, rfl, (by simp)⟩

/-- `CheckRead` and `Read` leave the writer's pointers alone, and a `Read` that fails leaves
`contention_` null. -/
theorem reader_pointers {call : Action α}
    (reads : call = .read ∨ call = .checkRead ∨ call = .reader)
    (done : state.exec N (state.orReader call) = some (label, next)) :
    next.wItem = state.wItem ∧ next.fItem = state.fItem ∧
      (label = some (.read none) → next.contention = none) := by
  have begins : ∀ reading, state.checkRead reading = some (label, next) →
      next.wItem = state.wItem ∧ next.fItem = state.fItem ∧
        (label = some (.read none) → next.contention = none) := by
    intro reading done
    rw [checkRead] at done
    split at done
    · cases reading <;> obtain ⟨rfl, rfl⟩ := Prod.mk.inj (Option.some_inj.mp done)
      · exact ⟨rfl, rfl, (by simp)⟩
      · exact ⟨rfl, rfl, (by simp)⟩
    · obtain ⟨rfl, rfl⟩ := Prod.mk.inj (Option.some_inj.mp done)
      exact ⟨rfl, rfl, (by simp)⟩
  cases reader : state.reader with
  | idle =>
      rw [orReader, reader] at done
      rcases reads with rfl | rfl | rfl
      · exact begins true done
      · exact begins false done
      · simp [exec, readerStep, reader] at done
  | checking reading =>
      rw [orReader, reader, exec, readerStep, reader] at done
      exact prefetch_pointers done
  | taking =>
      rw [orReader, reader, exec, readerStep, reader] at done
      obtain ⟨value, -, rest⟩ := Option.bind_eq_some_iff.mp done
      obtain ⟨⟨queue, emptied⟩, -, rest⟩ := Option.bind_eq_some_iff.mp rest
      obtain ⟨rfl, rfl⟩ := Prod.mk.inj (Option.some_inj.mp rest)
      exact ⟨rfl, rfl, (by simp)⟩
  | recycling emptied =>
      rw [orReader, reader, exec, readerStep, reader] at done
      obtain ⟨queue, -, rest⟩ := Option.bind_eq_some_iff.mp done
      obtain ⟨rfl, rfl⟩ := Prod.mk.inj (Option.some_inj.mp rest)
      exact ⟨rfl, rfl, (by simp)⟩

/-- The end of `Pop` does not touch `contention_`. -/
theorem recycle_contention {emptied : Addr} (recycling : state.reader = .recycling emptied)
    (done : state.exec N .reader = some (label, next)) :
    next.wItem = state.wItem ∧ next.fItem = state.fItem ∧ next.contention = state.contention := by
  rw [exec, readerStep, recycling] at done
  obtain ⟨queue, -, rest⟩ := Option.bind_eq_some_iff.mp done
  obtain ⟨rfl, rfl⟩ := Prod.mk.inj (Option.some_inj.mp rest)
  exact ⟨rfl, rfl, rfl⟩

end SpscQueue

/-! ## The invariant -/

/-- With nothing completed and not flushed, the writer's two pointers are the same. -/
theorem Pipe.Agrees.wItem_eq_fItem {pipe : Pipe α} {history : Pipe.History α}
    {queued : SpscQueue.History (Option α)} (agrees : pipe.Agrees history queued)
    (idle : pipe.writer = .idle) (nothing : queued.completed = 0) :
    pipe.queue.wItem = pipe.queue.fItem := by
  obtain ⟨addr, last, inside⟩ := agrees.queue
  have calm : pipe.queue.writer ≠ .storing := by
    rw [(agrees.writer_idle idle).1]
    simp
  have flushed : queued.flushed = 0 := by
    have := inside.orderly.flushed_le
    omega
  rw [inside.wItem calm, inside.fItem, nothing, flushed]

namespace WaitingPipe

/-- A `DoRead` of the reading end has failed while it held `mutex_`, or the reading end waits. -/
def Resting (state : WaitingPipe α) : Prop :=
  state.blocking = .waiting ∨
    state.blocking = .locked ∧ ∃ others, state.pipe.reader = .received none others

/-- Who rests has left `contention_` null, or is about to be notified. -/
structure Wakeful (state : WaitingPipe α) (history : Pipe.History α) : Prop where
  /-- The pipe follows its history. -/
  refines : state.pipe.Refines history
  /-- No message is incomplete. -/
  complete : history.completed = history.written.length
  /-- Nor will one be. -/
  whole : ∀ sending, state.pipe.writer = .writing sending → sending.incomplete = false
  /-- Between two calls of the writing end nothing is left to flush. -/
  settled : state.pipe.writer = .idle → state.pipe.queue.wItem = state.pipe.queue.fItem
  /-- One end at a time holds `mutex_`. -/
  exclusive : state.blocking = .locked →
    state.activating ≠ .locked ∧ state.activating ≠ .notified
  /-- Outside of its `DoRead`s the reading end is between two of them. -/
  stopped : state.blocking = .locking ∨ state.blocking = .waiting ∨ state.blocking = .woken →
    ∃ others, state.pipe.reader = .reading others
  /-- The marker has not been read by a `Read` that goes on. -/
  running : state.blocking ≠ .free → state.pipe.peerTerminated = false
  /-- The wake-up is not lost. -/
  awaited : state.Resting → state.pipe.queue.contention = none ∨
    state.activating = .locking ∨ state.activating = .locked

theorem Initial.wakeful {state : WaitingPipe α} (initial : Initial state) : Wakeful state {} := by
  obtain ⟨pipe, blocking, activating⟩ := state
  obtain ⟨start, free, quiet⟩ := initial
  simp only at start free quiet
  subst free quiet
  obtain ⟨queued, agrees⟩ := start.refines
  obtain ⟨fresh, fresh', -, created⟩ := start
  rw [Pipe.create] at created
  obtain ⟨queue, -, rest⟩ := Option.bind_eq_some_iff.mp created
  obtain rfl := Option.some_inj.mp rest
  exact
    { refines := ⟨queued, agrees⟩
      complete := rfl
      whole := (by simp)
      settled := fun _ => agrees.wItem_eq_fItem rfl (by simpa using agrees.completed)
      exclusive := (by simp)
      stopped := by simp
      running := fun busy => absurd rfl busy
      awaited := by simp [Resting] }

section Step

variable {state : WaitingPipe α} {history : Pipe.History α} {label : Option (PipeLabel α)}
  {next : Pipe α} {after : WaitingPipe α}

/-- A step of the pipe keeps it to its history, when no message is incomplete. -/
theorem Wakeful.follows (wakeful : Wakeful state history) (step : state.pipe.Step label next) :
    next.Refines (label.elim history history.next) := by
  cases label with
  | none => exact Pipe.simulation.silent _ _ _ wakeful.refines step
  | some label =>
      refine (Pipe.simulation.visible _ _ _ _ wakeful.refines step ?_).2
      cases label with
      | terminate => exact wakeful.complete
      | _ => exact trivial

/-- A `Write` or a `Terminate` begins, or is refused. -/
theorem Wakeful.call (wakeful : Wakeful state history) {action : PipeAction α}
    (calls : (∃ msg, action = .write msg false) ∨ action = .terminate)
    (enabled : state.pipe.Enabled action) (done : state.pipe.exec action = some (label, next)) :
    Wakeful { state with pipe := next } (label.elim history history.next) := by
  have refines := wakeful.follows ⟨action, enabled, done⟩
  have cases : (label = none ∨ label = some .refused) ∧ next = state.pipe ∨
      label = none ∧ ∃ sending : Sending α, sending.incomplete = false ∧
        next = { state.pipe with writer := .writing sending } := by
    rcases calls with ⟨msg, rfl⟩ | rfl
    · rw [Pipe.exec, Pipe.write] at done
      split at done <;> obtain ⟨rfl, rfl⟩ := Prod.mk.inj (Option.some_inj.mp done)
      · exact Or.inl ⟨Or.inr rfl, rfl⟩
      · exact Or.inr ⟨rfl, .message msg false, rfl, rfl⟩
    · rw [Pipe.exec, Pipe.terminate] at done
      split at done <;> obtain ⟨rfl, rfl⟩ := Prod.mk.inj (Option.some_inj.mp done)
      · exact Or.inl ⟨Or.inl rfl, rfl⟩
      · exact Or.inr ⟨rfl, .termination, rfl, rfl⟩
  rcases cases with ⟨rfl | rfl, rfl⟩ | ⟨rfl, sending, complete, rfl⟩
  · exact wakeful
  · exact wakeful
  · exact
      { wakeful with
        refines := refines
        whole := by
          rintro other here
          rw [← PipeWriter.writing.inj here]
          exact complete
        settled := (by simp) }

/-- A `Write` or a `Terminate` goes on: it is told of a sleeping reader when `contention_` is no
longer null. -/
theorem Wakeful.writer (wakeful : Wakeful state history) (quiet : state.activating = .none)
    {fresh : Addr} (enabled : state.pipe.Enabled (.writer fresh))
    (done : state.exec (.writer fresh) = some (label, after)) :
    Wakeful after (label.elim history history.next) := by
  obtain ⟨⟨label', next⟩, moved, rest⟩ := Option.bind_eq_some_iff.mp done
  obtain ⟨rfl, rfl⟩ := Prod.mk.inj (Option.some_inj.mp rest)
  have refines := wakeful.follows ⟨.writer fresh, enabled, moved⟩
  obtain ⟨queued, agrees⟩ := wakeful.refines
  obtain ⟨addr, last, inside⟩ := agrees.queue
  have within := agrees.writer
  rw [Pipe.exec, Pipe.writerStep] at moved
  cases writer : state.pipe.writer with
  | idle => exact absurd writer enabled.1
  | writing sending =>
      have complete := wakeful.whole sending writer
      rw [Pipe.WriterWithin, writer] at within
      rw [writer] at moved
      obtain ⟨⟨shown, queue⟩, stepped, moved⟩ := Option.bind_eq_some_iff.mp moved
      have kept := SpscQueue.write_contention within stepped
      have awaited : state.Resting → queue.contention = none ∨ _ := kept ▸ wakeful.awaited
      obtain ⟨-, ⟨rfl, -⟩ | ⟨rfl, -⟩⟩ := SpscQueue.write_cases within stepped
      · obtain ⟨rfl, rfl⟩ := Prod.mk.inj (Option.some_inj.mp moved)
        exact
          { wakeful with
            refines := refines
            whole := fun other here => wakeful.whole other (writer.trans here)
            settled := (by simp)
            awaited := awaited }
      · obtain ⟨rfl, rfl⟩ := Prod.mk.inj (Option.some_inj.mp moved)
        have counted : (history.next (Pipe.sent sending)).completed =
            (history.next (Pipe.sent sending)).written.length := by
          cases sending with
          | message msg incomplete =>
              obtain rfl : incomplete = false := complete
              simp [Pipe.sent, Pipe.History.next]
          | termination => exact wakeful.complete
        have same : (match some (Pipe.sent sending) with
            | some (.flushed true) => .locking
            | _ => state.activating) = state.activating := by
          cases sending <;> rfl
        rw [same]
        exact
          { wakeful with
            refines := refines
            complete := counted
            whole := by simp [complete]
            settled := by simp [complete]
            awaited := awaited }
  | flushing sending =>
      rw [Pipe.WriterWithin, writer] at within
      rw [writer] at moved
      obtain ⟨⟨shown, queue⟩, stepped, moved⟩ := Option.bind_eq_some_iff.mp moved
      have pointing : state.pipe.queue.writer = .flushing → state.pipe.queue.wItem ≠ none := by
        intro flushing
        rw [inside.wItem (by rw [flushing]; simp)]
        simp
      have awaited : state.Resting → queue.contention = none ∨ shown = some (.flush false) := by
        intro resting
        rcases wakeful.awaited resting with asleep | called | held
        · exact SpscQueue.flush_contention within pointing asleep stepped
        · exact absurd (quiet.symm.trans called) (by simp)
        · exact absurd (quiet.symm.trans held) (by simp)
      obtain ⟨-, ⟨rfl, -⟩ | ⟨⟨returned, rfl⟩, -⟩⟩ := SpscQueue.flush_cases within stepped
      · obtain ⟨rfl, rfl⟩ := Prod.mk.inj (Option.some_inj.mp moved)
        exact
          { wakeful with
            refines := refines
            whole := (by simp)
            settled := (by simp)
            awaited := fun resting => (awaited resting).imp_right (by simp) }
      · have settled := SpscQueue.flush_settles within stepped
        obtain ⟨rfl, rfl⟩ := Prod.mk.inj (Option.some_inj.mp moved)
        refine
          { wakeful with
            refines := refines
            whole := (by simp)
            settled := fun _ => settled
            exclusive := ?_
            awaited := ?_ }
        · cases returned with
          | true => exact wakeful.exclusive
          | false => exact fun _ => ⟨(by simp), (by simp)⟩
        · intro resting
          rcases awaited resting with asleep | told
          · exact Or.inl asleep
          · obtain rfl : returned = false := by simpa using told
            exact Or.inr (Or.inl rfl)

/-- A `CheckRead` or a `Read` begins, or is refused. -/
theorem Wakeful.readCall (wakeful : Wakeful state history) {action : PipeAction α}
    (calls : action = .checkRead ∨ ∃ timeout, action = .read timeout)
    (enabled : state.pipe.Enabled action) (done : state.pipe.exec action = some (label, next)) :
    Wakeful { state with pipe := next } (label.elim history history.next) := by
  have refines := wakeful.follows ⟨action, enabled, done⟩
  have idle : state.pipe.reader = .idle := by
    rcases calls with rfl | ⟨timeout, rfl⟩ <;> exact enabled
  have cases : label = some (.checkRead false) ∧ next = state.pipe ∨
      label = none ∧ ∃ reader, (∀ value others, reader ≠ .received value others) ∧
        next = { state.pipe with reader := reader } := by
    rcases calls with rfl | ⟨timeout, rfl⟩
    · rw [Pipe.exec, Pipe.checkRead] at done
      split at done <;> obtain ⟨rfl, rfl⟩ := Prod.mk.inj (Option.some_inj.mp done)
      · exact Or.inl ⟨rfl, rfl⟩
      · exact Or.inr ⟨rfl, .checking, (by simp), rfl⟩
    · obtain ⟨rfl, rfl⟩ := Prod.mk.inj (Option.some_inj.mp done)
      exact Or.inr ⟨rfl, .reading (Pipe.retries timeout), (by simp), rfl⟩
  have busy : ¬∃ others, state.pipe.reader = .reading others := by
    rintro ⟨others, reading⟩
    exact absurd (idle.symm.trans reading) (by simp)
  rcases cases with ⟨rfl, rfl⟩ | ⟨rfl, reader, free, rfl⟩
  · exact wakeful
  · exact
      { wakeful with
        refines := refines
        stopped := fun stopped => absurd (wakeful.stopped stopped) busy
        awaited := by
          rintro (waiting | ⟨-, others, received⟩)
          · exact absurd (wakeful.stopped (Or.inr (Or.inl waiting))) busy
          · exact absurd received (free _ _) }

theorem Wakeful.returns (wakeful : Wakeful state history) {history' : Pipe.History α}
    (refines : next.Refines history') (complete : history'.completed = history'.written.length)
    (writer : next.writer = state.pipe.writer)
    (pointers : next.queue.wItem = state.pipe.queue.wItem ∧
      next.queue.fItem = state.pipe.queue.fItem) (idle : next.reader = .idle) :
    Wakeful { state with pipe := next, blocking := state.unblocked next } history' := by
  have free : state.unblocked next = .free := by
    rw [unblocked, idle]
  rw [free]
  exact
    { refines := refines
      complete := complete
      whole := by simpa only [writer] using wakeful.whole
      settled := by simpa only [writer, pointers] using wakeful.settled
      exclusive := (by simp)
      stopped := by simp
      running := fun busy => absurd rfl busy
      awaited := by simp [Resting] }

/-- A call of the reading end goes on, as blocked as it was. -/
theorem Wakeful.goesOn (wakeful : Wakeful state history) (refines : next.Refines history)
    (writer : next.writer = state.pipe.writer)
    (pointers : next.queue.wItem = state.pipe.queue.wItem ∧
      next.queue.fItem = state.pipe.queue.fItem)
    (ended : next.peerTerminated = state.pipe.peerTerminated)
    (standing : state.blocking = .free ∨ state.blocking = .locked)
    (kept : state.unblocked next = state.blocking)
    (awaited : state.blocking = .locked → (∃ others, next.reader = .received none others) →
      next.queue.contention = none ∨ state.activating = .locking ∨ state.activating = .locked) :
    Wakeful { state with pipe := next, blocking := state.unblocked next } history := by
  rw [kept]
  exact
    { refines := refines
      complete := wakeful.complete
      whole := by simpa only [writer] using wakeful.whole
      settled := by simpa only [writer, pointers] using wakeful.settled
      exclusive := wakeful.exclusive
      stopped := by rcases standing with free | locked <;> simp [*]
      running := fun busy => ended.trans (wakeful.running busy)
      awaited := by
        rintro (waiting | ⟨locked, failed⟩)
        · rcases standing with free | locked
          · exact absurd (waiting.symm.trans free) (by simp)
          · exact absurd (waiting.symm.trans locked) (by simp)
        · exact awaited locked failed }

/-- A `DoRead` that fails and is not the last is followed by the lock, or under the lock by the
wait. -/
theorem Wakeful.fails (wakeful : Wakeful state history) {others : Option Nat} {later : Option Nat}
    (received : state.pipe.reader = .received none others)
    (running : state.pipe.peerTerminated = false)
    (standing : state.blocking = .free ∨ state.blocking = .locked)
    (refines : { state.pipe with reader := .reading later }.Refines history) :
    Wakeful
      { state with
        pipe := { state.pipe with reader := .reading later }
        blocking := state.unblocked { state.pipe with reader := .reading later } } history := by
  have moved : state.unblocked { state.pipe with reader := .reading later } =
      if state.blocking = .locked then .waiting else .locking := by
    rw [unblocked, received]
  rw [moved]
  rcases standing with free | locked
  · rw [if_neg (by rw [free]; simp)]
    exact
      { wakeful with
        refines := refines
        exclusive := (by simp)
        stopped := fun _ => ⟨later, rfl⟩
        running := fun _ => running
        awaited := by simp [Resting] }
  · rw [if_pos locked]
    exact
      { wakeful with
        refines := refines
        exclusive := (by simp)
        stopped := fun _ => ⟨later, rfl⟩
        running := fun _ => running
        awaited := fun _ => wakeful.awaited (Or.inr ⟨locked, others, received⟩) }

/-- `CheckRead` or a `DoRead` goes on: one that fails leaves `contention_` null. -/
theorem Wakeful.reader (wakeful : Wakeful state history)
    (unblocked : state.blocking = .free ∨ state.blocking = .locked)
    (enabled : state.pipe.Enabled .reader) (done : state.exec .reader = some (label, after)) :
    Wakeful after (label.elim history history.next) := by
  obtain ⟨⟨label', next⟩, moved, rest⟩ := Option.bind_eq_some_iff.mp done
  obtain ⟨rfl, rfl⟩ := Prod.mk.inj (Option.some_inj.mp rest)
  have refines := wakeful.follows ⟨.reader, enabled, moved⟩
  obtain ⟨queued, agrees⟩ := wakeful.refines
  have within := agrees.reader
  rw [Pipe.exec, Pipe.readerStep] at moved
  cases reader : state.pipe.reader with
  | idle => exact absurd reader enabled
  | checking =>
      rw [Pipe.ReaderWithin, reader] at within
      rw [reader] at moved
      obtain ⟨⟨shown, queue⟩, stepped, moved⟩ := Option.bind_eq_some_iff.mp moved
      obtain ⟨wItem, fItem, -⟩ := SpscQueue.reader_pointers (Or.inr (Or.inl rfl)) stepped
      obtain ⟨-, ⟨rfl, -⟩ | ⟨⟨returned, rfl⟩, -⟩⟩ := SpscQueue.check_cases within stepped
      · obtain ⟨rfl, rfl⟩ := Prod.mk.inj (Option.some_inj.mp moved)
        refine wakeful.goesOn refines rfl ⟨wItem, fItem⟩ rfl unblocked ?_ ?_
        · simp [WaitingPipe.unblocked]
        · simp
      · obtain ⟨rfl, rfl⟩ := Prod.mk.inj (Option.some_inj.mp moved)
        exact wakeful.returns refines wakeful.complete rfl ⟨wItem, fItem⟩ rfl
  | reading others =>
      rw [Pipe.ReaderWithin, reader] at within
      rw [reader] at moved
      dsimp only at moved
      split at moved
      · obtain ⟨rfl, rfl⟩ := Prod.mk.inj (Option.some_inj.mp moved)
        exact wakeful.returns refines wakeful.complete rfl ⟨rfl, rfl⟩ rfl
      · obtain ⟨⟨shown, queue⟩, stepped, moved⟩ := Option.bind_eq_some_iff.mp moved
        obtain ⟨wItem, fItem, fails⟩ := SpscQueue.reader_pointers (Or.inl rfl) stepped
        have within := within.imp_right And.right
        obtain ⟨-, ⟨rfl, -⟩ | ⟨value, rfl, -⟩⟩ := SpscQueue.read_cases within stepped
        · obtain ⟨rfl, rfl⟩ := Prod.mk.inj (Option.some_inj.mp moved)
          refine wakeful.goesOn refines rfl ⟨wItem, fItem⟩ rfl unblocked ?_ ?_
          · simp [WaitingPipe.unblocked, reader]
          · simp
        · obtain ⟨rfl, rfl⟩ := Prod.mk.inj (Option.some_inj.mp moved)
          refine wakeful.goesOn refines rfl ⟨wItem, fItem⟩ rfl unblocked ?_ ?_
          · simp [WaitingPipe.unblocked]
          · rintro - ⟨others, received⟩
            obtain rfl : value = none := (PipeReader.received.inj received).1
            exact Or.inl (fails rfl)
  | received value others =>
      rw [Pipe.ReaderWithin, reader] at within
      rw [reader] at moved
      obtain ⟨running, idle | ⟨emptied, recycling⟩⟩ := within
      · simp only [idle] at moved
        have concluded := Option.some_inj.mp moved
        rcases value with _ | _ | msg
        · rcases others with _ | _ | others
          · obtain ⟨rfl, rfl⟩ := Prod.mk.inj concluded
            exact wakeful.fails reader running unblocked refines
          · obtain ⟨rfl, rfl⟩ := Prod.mk.inj concluded
            exact wakeful.returns refines wakeful.complete rfl ⟨rfl, rfl⟩ rfl
          · obtain ⟨rfl, rfl⟩ := Prod.mk.inj concluded
            exact wakeful.fails reader running unblocked refines
        · obtain ⟨rfl, rfl⟩ := Prod.mk.inj concluded
          exact wakeful.returns refines wakeful.complete rfl ⟨rfl, rfl⟩ rfl
        · obtain ⟨rfl, rfl⟩ := Prod.mk.inj concluded
          exact wakeful.returns refines wakeful.complete rfl ⟨rfl, rfl⟩ rfl
      · simp only [recycling] at moved
        obtain ⟨⟨shown, queue⟩, stepped, moved⟩ := Option.bind_eq_some_iff.mp moved
        obtain ⟨rfl, rfl⟩ := Prod.mk.inj (Option.some_inj.mp moved)
        obtain ⟨wItem, fItem, contention⟩ := SpscQueue.recycle_contention recycling stepped
        refine wakeful.goesOn refines rfl ⟨wItem, fItem⟩ rfl unblocked ?_ ?_
        · simp [WaitingPipe.unblocked]
        · rintro locked ⟨later, failed⟩
          rw [contention]
          exact wakeful.awaited (Or.inr ⟨locked, later, reader.trans failed⟩)

/-- `SendReadActivated` locks `mutex_`, notifies and unlocks. -/
theorem Wakeful.activate (wakeful : Wakeful state history)
    (unlocked : state.activating = .locking → state.blocking ≠ .locked) :
    Wakeful state.activate history := by
  rw [WaitingPipe.activate]
  split
  · exact wakeful
  · rename_i locking
    exact
      { wakeful with
        exclusive := fun locked => absurd locked (unlocked locking)
        awaited := fun _ => Or.inr (Or.inr rfl) }
  · rename_i held
    have apart : state.blocking ≠ .locked := fun locked => (wakeful.exclusive locked).1 held
    by_cases waiting : state.blocking = .waiting
    · rw [if_pos waiting]
      exact
        { wakeful with
          exclusive := (by simp)
          stopped := fun _ => wakeful.stopped (Or.inr (Or.inl waiting))
          running := fun _ => wakeful.running (by rw [waiting]; simp)
          awaited := by simp [Resting] }
    · rw [if_neg waiting]
      exact
        { wakeful with
          exclusive := fun locked => absurd locked apart
          awaited := by simp [Resting, waiting, apart] }
  · rename_i notified
    exact
      { wakeful with
        exclusive := fun _ => ⟨(by simp), (by simp)⟩
        awaited := fun resting => by simpa [notified] using wakeful.awaited resting }

/-- Every step of either end keeps the invariant. -/
theorem Wakeful.step (wakeful : Wakeful state history) (step : Step state label after) :
    Wakeful after (label.elim history history.next) := by
  obtain ⟨action, enabled, done⟩ := step
  cases action with
  | write msg =>
      rw [exec] at done
      obtain ⟨⟨label', next⟩, moved, rest⟩ := Option.bind_eq_some_iff.mp done
      obtain ⟨rfl, rfl⟩ := Prod.mk.inj (Option.some_inj.mp rest)
      exact wakeful.call (Or.inl ⟨msg, rfl⟩) enabled.1 moved
  | terminate =>
      rw [exec] at done
      obtain ⟨⟨label', next⟩, moved, rest⟩ := Option.bind_eq_some_iff.mp done
      obtain ⟨rfl, rfl⟩ := Prod.mk.inj (Option.some_inj.mp rest)
      exact wakeful.call (Or.inr rfl) enabled.1 moved
  | writer fresh => exact wakeful.writer enabled.2 enabled.1 done
  | activate =>
      obtain ⟨rfl, rfl⟩ := Prod.mk.inj (Option.some_inj.mp done)
      exact wakeful.activate enabled.2
  | checkRead =>
      rw [exec] at done
      obtain ⟨⟨label', next⟩, moved, rest⟩ := Option.bind_eq_some_iff.mp done
      obtain ⟨rfl, rfl⟩ := Prod.mk.inj (Option.some_inj.mp rest)
      exact wakeful.readCall (Or.inl rfl) enabled moved
  | read timeout =>
      rw [exec] at done
      obtain ⟨⟨label', next⟩, moved, rest⟩ := Option.bind_eq_some_iff.mp done
      obtain ⟨rfl, rfl⟩ := Prod.mk.inj (Option.some_inj.mp rest)
      exact wakeful.readCall (Or.inr ⟨timeout, rfl⟩) enabled moved
  | reader => exact wakeful.reader enabled.2 enabled.1 done
  | lock =>
      obtain ⟨rfl, rfl⟩ := Prod.mk.inj (Option.some_inj.mp done)
      obtain ⟨stopped, unlocked⟩ := enabled
      obtain ⟨others, reading⟩ := wakeful.stopped (stopped.imp_right Or.inr)
      exact
        { wakeful with
          exclusive := fun _ => unlocked
          stopped := by simp
          running := fun _ =>
            wakeful.running (by rcases stopped with locking | woken <;> simp [*])
          awaited := by simp [Resting, reading] }
  | wake =>
      obtain ⟨rfl, rfl⟩ := Prod.mk.inj (Option.some_inj.mp done)
      have waiting : state.blocking = .waiting := enabled
      exact
        { wakeful with
          exclusive := (by simp)
          stopped := fun _ => wakeful.stopped (Or.inr (Or.inl waiting))
          running := fun _ => wakeful.running (by rw [waiting]; simp)
          awaited := by simp [Resting] }

end Step

theorem Wakeful.run {start state : WaitingPipe α} {trace : List (PipeLabel α)}
    (initial : Initial start) (run : Run Step start trace state) :
    Wakeful state (Pipe.history trace) := by
  induction run with
  | nil => exact initial.wakeful
  | silent _ step ih => exact ih.step step
  | visible _ step ih =>
      rw [Pipe.history, List.foldl_append]
      exact ih.step step

/-- With `contention_` null and nothing left to flush, everything was returned. -/
theorem Wakeful.caught_up {state : WaitingPipe α} {history : Pipe.History α}
    (wakeful : Wakeful state history) (blocked : state.blocking = .waiting)
    (idle : state.pipe.writer = .idle) (asleep : state.pipe.queue.contention = none) :
    state.pipe.queue.queue.front = state.pipe.queue.wItem ∧ history.terminated = false ∧
      history.written = history.returned.map some := by
  obtain ⟨queued, agrees⟩ := wakeful.refines
  obtain ⟨addr, last, inside⟩ := agrees.queue
  obtain ⟨ordered, returned_le, flushed_le, completed_le, slept⟩ := inside.orderly
  have calm : state.pipe.queue.writer ≠ .storing := by
    rw [(agrees.writer_idle idle).1]
    simp
  have sleeping : queued.asleep = true := by
    have contention := inside.contention
    rw [asleep] at contention
    cases awake : queued.asleep with
    | true => rfl
    | false => simp [awake] at contention
  have caught := slept sleeping
  have wItem := inside.wItem calm
  have flushed : queued.flushed = queued.completed := by
    have same := wakeful.settled idle
    rw [wItem, inside.fItem] at same
    exact (inside.place_inj (by decide) returned_le (by omega) (by omega) completed_le).mp
      (Option.some_inj.mp same)
  obtain ⟨others, reading⟩ := wakeful.stopped (Or.inr (Or.inl blocked))
  have running := wakeful.running (by rw [blocked]; simp)
  have held : queued.returned = history.returned.map some := by
    have returned := agrees.returned
    rw [Pipe.inHand, reading, running] at returned
    simpa using returned
  have completed := agrees.completed
  have written := agrees.written
  rw [held] at ordered caught
  refine ⟨by rw [inside.layout.front_eq, wItem, held, caught], ?_⟩
  cases ended : history.terminated with
  | false =>
      rw [ended, if_neg (by simp)] at completed
      rw [ended, if_neg (by simp), List.append_nil] at written
      rw [written] at ordered
      refine ⟨rfl, (ordered.eq_of_length ?_).symm⟩
      rw [caught, flushed, completed, wakeful.complete]
  | true =>
      rw [ended, if_pos rfl] at completed written
      rw [written] at ordered
      have whole := ordered.eq_of_length (by rw [caught, flushed, completed]; simp)
      have marker : none ∈ history.returned.map some := by simp [whole]
      simp at marker

/-- When the reading end is blocked in its wait and the writing end is in no call, nothing that was
flushed is left in the queue: every message written was returned by `Read`, and there is no
marker. -/
theorem no_lost_wake_up {start state : WaitingPipe α} {trace : List (PipeLabel α)}
    (initial : Initial start) (run : Run Step start trace state)
    (blocked : state.blocking = .waiting)
    (returned : state.pipe.writer = .idle ∧ state.activating = .none) :
    state.pipe.queue.queue.front = state.pipe.queue.wItem ∧
      (Pipe.history trace).terminated = false ∧
      (Pipe.history trace).written = (Pipe.history trace).returned.map some := by
  have wakeful := Wakeful.run initial run
  obtain ⟨idle, quiet⟩ := returned
  have asleep : state.pipe.queue.contention = none := by
    simpa [quiet] using wakeful.awaited (Or.inl blocked)
  exact wakeful.caught_up blocked idle asleep

/-- A message is read, and the next `Read` waits. -/
theorem no_lost_wake_up_one_message :
    ∃ (start state : WaitingPipe Nat) (trace : List (PipeLabel Nat)), Initial start ∧
      Run Step start trace state ∧ state.blocking = .waiting ∧ trace.length = 3 ∧
      state.pipe.queue.queue.front = state.pipe.queue.wItem ∧
      (Pipe.history trace).terminated = false ∧
      (Pipe.history trace).written = (Pipe.history trace).returned.map some := by
  have initial : Initial ((create (α := Nat) 0 1).get rfl) :=
    ⟨⟨0, 1, by decide, rfl⟩, rfl, rfl⟩
  have written : Run Step ((create (α := Nat) 0 1).get rfl)
      ([] ++ [PipeLabel.write (some 5) false]) _ :=
    (Run.nil.silent ⟨.write (some 5), ⟨rfl, rfl⟩, rfl⟩).visible
      ⟨.writer 2, ⟨⟨PipeWriter.writing_ne_idle _, rfl⟩, rfl⟩, rfl⟩
  have flushed : Run Step _ (_ ++ [PipeLabel.flushed false]) _ :=
    (written.silent ⟨.writer 2, ⟨⟨PipeWriter.flushing_ne_idle _, rfl⟩, rfl⟩, rfl⟩).visible
      ⟨.writer 2, ⟨⟨PipeWriter.flushing_ne_idle _, rfl⟩, rfl⟩, rfl⟩
  have received := (((flushed.silent ⟨.read (-1), rfl, rfl⟩).silent
    ⟨.reader, ⟨PipeReader.reading_ne_idle _, Or.inl rfl⟩, rfl⟩).silent
    ⟨.reader, ⟨PipeReader.reading_ne_idle _, Or.inl rfl⟩, rfl⟩).silent
    ⟨.reader, ⟨PipeReader.reading_ne_idle _, Or.inl rfl⟩, rfl⟩
  have returned : Run Step _ (_ ++ [PipeLabel.read (some 5)]) _ :=
    received.visible ⟨.reader, ⟨PipeReader.received_ne_idle _ _, Or.inl rfl⟩, rfl⟩
  have failed := (((returned.silent ⟨.read (-1), rfl, rfl⟩).silent
    ⟨.reader, ⟨PipeReader.reading_ne_idle _, Or.inl rfl⟩, rfl⟩).silent
    ⟨.reader, ⟨PipeReader.reading_ne_idle _, Or.inl rfl⟩, rfl⟩).silent
    ⟨.reader, ⟨PipeReader.received_ne_idle _ _, Or.inl rfl⟩, rfl⟩
  have waits := (((failed.silent
    ⟨.lock, ⟨Or.inl rfl, Activating.none_ne_locked, Activating.none_ne_notified⟩, rfl⟩).silent
    ⟨.reader, ⟨PipeReader.reading_ne_idle _, Or.inr rfl⟩, rfl⟩).silent
    ⟨.reader, ⟨PipeReader.reading_ne_idle _, Or.inr rfl⟩, rfl⟩).silent
    ⟨.reader, ⟨PipeReader.received_ne_idle _ _, Or.inr rfl⟩, rfl⟩
  exact ⟨_, _, _, initial, waits, rfl, rfl, no_lost_wake_up initial waits rfl ⟨rfl, rfl⟩⟩

end WaitingPipe

end FlashForwarder
