import FlashForwarder.Spsc.PipeContract

/-!
# Giving messages back

The two ends of a pipe pair, each operated by one thread.  `Recyclemessage_t` gives a message that
was read back to the allocator of the other end, through the reference that `Terminate` drops.
-/

namespace FlashForwarder

open Transition

variable {α : Type}

/-- The two pipe objects of `CreatePipePair`. -/
inductive PipeEnd where
  | pipe0
  | pipe1
  deriving DecidableEq

/-- The other one. -/
def PipeEnd.other : PipeEnd → PipeEnd
  | .pipe0 => .pipe1
  | .pipe1 => .pipe0

/-- Whether a call, or a step inside one, is of the writing part of an end. -/
def PipeAction.ofWriter : PipeAction α → Bool
  | .write _ _ | .unwrite | .terminate | .writer _ => true
  | .checkRead | .read _ | .reader => false

/-- Whether it begins a call. -/
def PipeAction.begins : PipeAction α → Bool
  | .write _ _ | .unwrite | .terminate | .checkRead | .read _ => true
  | .writer _ | .reader => false

/-- The members of the two ends. -/
structure PipePair (α : Type) where
  /-- The direction in which an end writes. -/
  direction : PipeEnd → Pipe α
  /-- `peer_` of an end is not null. -/
  peer : PipeEnd → Bool
  /-- The messages an end has read and not recycled. -/
  unreturned : PipeEnd → List α
  /-- The messages that the allocator of an end was given back. -/
  recycled : PipeEnd → List α

/-- What is seen of a step. -/
inductive PairLabel (α : Type) where
  /-- A step of an end shows a label of its pipe. -/
  | pipe (pipeEnd : PipeEnd) (label : PipeLabel α)
  /-- `Recyclemessage_t`, and whether it reaches the allocator of the other end. -/
  | recycle (pipeEnd : PipeEnd) (msg : α) (reached : Bool)

/-- A call of an end, or one more step inside one. -/
inductive PairAction (α : Type) where
  | pipe (pipeEnd : PipeEnd) (action : PipeAction α)
  /-- `Recyclemessage_t` of the message at an index among those read. -/
  | recycle (pipeEnd : PipeEnd) (index : Nat)

namespace PipePair

/-- `CreatePipePair`, when `malloc` returns what is given. -/
def create (fresh fresh' : PipeEnd → Addr) : Option (PipePair α) := do
  let pipe0 ← Pipe.create (fresh .pipe0) (fresh' .pipe0)
  let pipe1 ← Pipe.create (fresh .pipe1) (fresh' .pipe1)
  return {
    direction := fun
      | .pipe0 => pipe0
      | .pipe1 => pipe1
    peer := fun _ => true
    unreturned := fun _ => []
    recycled := fun _ => [] }

variable (pair : PipePair α)

/-- The direction that a call of an end is about. -/
def acts (pipeEnd : PipeEnd) (action : PipeAction α) : PipeEnd :=
  if action.ofWriter then pipeEnd else pipeEnd.other

/-- The thread of an end is between two calls. -/
def Free (pipeEnd : PipeEnd) : Prop :=
  (pair.direction pipeEnd).writer = .idle ∧ (pair.direction pipeEnd.other).reader = .idle

/-- The thread of an end makes a call when it is in none, and recycles what it has read. -/
def Enabled : PairAction α → Prop
  | .pipe pipeEnd action =>
      (pair.direction (acts pipeEnd action)).Enabled action ∧
        (action.begins = true → pair.Free pipeEnd)
  | .recycle pipeEnd index => pair.Free pipeEnd ∧ index < (pair.unreturned pipeEnd).length

/-- Whether a step is the end of a `Terminate` that has written its marker. -/
def terminates (pipe : Pipe α) (label : Option (PipeLabel α)) : Bool :=
  match pipe.writer, label with
  | .flushing .termination, some (.flushed _) => true
  | _, _ => false

/-- A step of an end in one of the directions; `Terminate` ends with `peer_.reset()`. -/
def pipeStep (pipeEnd : PipeEnd) (action : PipeAction α) :
    Option (Option (PairLabel α) × PipePair α) := do
  let before := pair.direction (acts pipeEnd action)
  let (label, pipe) ← before.exec action
  return (label.map (.pipe pipeEnd),
    { pair with
      direction := Function.update pair.direction (acts pipeEnd action) pipe
      peer :=
        if terminates before label then Function.update pair.peer pipeEnd false else pair.peer
      unreturned :=
        match label with
        | some (.read (some msg)) =>
            Function.update pair.unreturned pipeEnd (pair.unreturned pipeEnd ++ [msg])
        | _ => pair.unreturned })

/-- `Recyclemessage_t`: with a null `peer_` the message reaches nothing. -/
def recycle (pipeEnd : PipeEnd) (index : Nat) : Option (Option (PairLabel α) × PipePair α) := do
  let msg ← (pair.unreturned pipeEnd)[index]?
  let rest := (pair.unreturned pipeEnd).eraseIdx index
  let pair := { pair with unreturned := Function.update pair.unreturned pipeEnd rest }
  if pair.peer pipeEnd then
    let given := pair.recycled pipeEnd.other ++ [msg]
    return (some (.recycle pipeEnd msg true),
      { pair with recycled := Function.update pair.recycled pipeEnd.other given })
  else
    return (some (.recycle pipeEnd msg false), pair)

/-- What an action does, unless its behaviour is undefined. -/
def exec : PairAction α → Option (Option (PairLabel α) × PipePair α)
  | .pipe pipeEnd action => pair.pipeStep pipeEnd action
  | .recycle pipeEnd index => pair.recycle pipeEnd index

/-- One step of either end. -/
def Step (pair : PipePair α) (label : Option (PairLabel α)) (next : PipePair α) : Prop :=
  ∃ action, pair.Enabled action ∧ pair.exec action = some (label, next)

/-- A pair after `CreatePipePair`. -/
def Initial (pair : PipePair α) : Prop :=
  ∃ fresh fresh', (∀ pipeEnd, fresh' pipeEnd ≠ fresh pipeEnd) ∧ create fresh fresh' = some pair

end PipePair

/-! ## When the reference is dropped -/

namespace Pipe

open PipePair (terminates)

variable {pipe next : Pipe α} {label : Option (PipeLabel α)} {action : PipeAction α}

/-- The reading part of an end has nothing to do with termination. -/
theorem reader_exec (reads : action.ofWriter = false)
    (done : pipe.exec action = some (label, next)) :
    next.writer = pipe.writer ∧ next.terminated = pipe.terminated ∧
      label ≠ some .terminate ∧ ∀ activated, label ≠ some (.flushed activated) := by
  cases action with
  | write msg incomplete => cases reads
  | unwrite => cases reads
  | terminate => cases reads
  | writer fresh => cases reads
  | checkRead =>
      rw [exec, checkRead] at done
      split at done <;> obtain ⟨rfl, rfl⟩ := Prod.mk.inj (Option.some_inj.mp done)
      · exact ⟨rfl, rfl, (by simp), (by simp)⟩
      · exact ⟨rfl, rfl, (by simp), (by simp)⟩
  | read timeout =>
      obtain ⟨rfl, rfl⟩ := Prod.mk.inj (Option.some_inj.mp done)
      exact ⟨rfl, rfl, (by simp), (by simp)⟩
  | reader =>
      rw [exec, readerStep] at done
      split at done
      · exact absurd done (by simp)
      · obtain ⟨⟨label', queue⟩, -, rest⟩ := Option.bind_eq_some_iff.mp done
        split at rest <;> obtain ⟨rfl, rfl⟩ := Prod.mk.inj (Option.some_inj.mp rest)
        · exact ⟨rfl, rfl, (by simp), (by simp)⟩
        · exact ⟨rfl, rfl, (by simp), (by simp)⟩
      · split at done
        · obtain ⟨rfl, rfl⟩ := Prod.mk.inj (Option.some_inj.mp done)
          exact ⟨rfl, rfl, (by simp), (by simp)⟩
        · obtain ⟨⟨label', queue⟩, -, rest⟩ := Option.bind_eq_some_iff.mp done
          split at rest <;> obtain ⟨rfl, rfl⟩ := Prod.mk.inj (Option.some_inj.mp rest)
          · exact ⟨rfl, rfl, (by simp), (by simp)⟩
          · exact ⟨rfl, rfl, (by simp), (by simp)⟩
      · split at done
        · have concluded := Option.some_inj.mp done
          unfold conclude at concluded
          split at concluded <;> obtain ⟨rfl, rfl⟩ := Prod.mk.inj concluded <;>
            exact ⟨rfl, rfl, (by simp), (by simp)⟩
        · obtain ⟨⟨label', queue⟩, -, rest⟩ := Option.bind_eq_some_iff.mp done
          obtain ⟨rfl, rfl⟩ := Prod.mk.inj (Option.some_inj.mp rest)
          exact ⟨rfl, rfl, (by simp), (by simp)⟩

/-- `terminated_` is set when a `Terminate` ends, and the marker is in the queue from its label
on. -/
theorem termination_exec (enabled : pipe.Enabled action)
    (done : pipe.exec action = some (label, next)) :
    next.terminated = (pipe.terminated || terminates pipe label) ∧
      (next.marked = true ↔ pipe.marked = true ∨ label = some .terminate) := by
  cases reads : action.ofWriter with
  | false =>
      obtain ⟨writer, terminated, unmarked, unflushed⟩ := reader_exec reads done
      have goesOn : terminates pipe label = false := by
        unfold terminates
        split
        · exact absurd rfl (unflushed _)
        · rfl
      rw [goesOn, Bool.or_false, marked, marked, writer, terminated]
      exact ⟨rfl, by simp [unmarked]⟩
  | true =>
      cases action with
      | write msg incomplete =>
          have idle : pipe.writer = .idle := enabled
          rw [exec, write] at done
          split at done <;> obtain ⟨rfl, rfl⟩ := Prod.mk.inj (Option.some_inj.mp done)
          · simp [terminates, idle]
          · simp [terminates, marked, idle]
      | unwrite =>
          have idle : pipe.writer = .idle := enabled
          rw [exec, unwrite] at done
          obtain ⟨⟨label', queue⟩, -, rest⟩ := Option.bind_eq_some_iff.mp done
          split at rest <;> obtain ⟨rfl, rfl⟩ := Prod.mk.inj (Option.some_inj.mp rest)
          · simp [terminates, marked, idle]
          · simp [terminates, marked, idle]
      | terminate =>
          have idle : pipe.writer = .idle := enabled
          rw [exec, terminate] at done
          split at done <;> obtain ⟨rfl, rfl⟩ := Prod.mk.inj (Option.some_inj.mp done)
          · simp [terminates, idle]
          · simp [terminates, marked, idle]
      | writer fresh =>
          rw [exec, writerStep] at done
          split at done
          · exact absurd done (by simp)
          · rename_i sending writing
            obtain ⟨⟨label', queue⟩, -, rest⟩ := Option.bind_eq_some_iff.mp done
            split at rest <;> obtain ⟨rfl, rfl⟩ := Prod.mk.inj (Option.some_inj.mp rest)
            · simp [terminates, marked, writing]
            · cases sending with
              | message msg incomplete =>
                  cases incomplete <;>
                    simp [terminates, marked, writing, sent, Sending.incomplete]
              | termination => simp [terminates, marked, writing, sent, Sending.incomplete]
          · rename_i sending flushing
            obtain ⟨⟨label', queue⟩, -, rest⟩ := Option.bind_eq_some_iff.mp done
            split at rest <;> obtain ⟨rfl, rfl⟩ := Prod.mk.inj (Option.some_inj.mp rest)
            · cases sending <;> simp [terminates, marked, flushing]
            · cases sending <;> simp [terminates, marked, flushing]
      | checkRead => cases reads
      | read timeout => cases reads
      | reader => cases reads

end Pipe

namespace PipePair

variable {pair next : PipePair α} {trace : List (PairLabel α)}

/-- An end has its reference until its `Terminate` has ended, and the trace shows which have put
their marker. -/
def Referring (pair : PipePair α) (trace : List (PairLabel α)) : Prop :=
  ∀ pipeEnd, (pair.peer pipeEnd = !(pair.direction pipeEnd).terminated) ∧
    ((pair.direction pipeEnd).marked = true ↔ .pipe pipeEnd .terminate ∈ trace)

theorem Initial.referring (initial : Initial pair) : Referring pair [] := by
  obtain ⟨fresh, fresh', -, created⟩ := initial
  rw [create] at created
  obtain ⟨pipe0, created0, rest⟩ := Option.bind_eq_some_iff.mp created
  obtain ⟨pipe1, created1, rest⟩ := Option.bind_eq_some_iff.mp rest
  obtain rfl := Option.some_inj.mp rest
  have start : ∀ {fresh fresh' : Addr} {pipe : Pipe α}, Pipe.create fresh fresh' = some pipe →
      pipe.terminated = false ∧ pipe.marked = false := by
    intro fresh fresh' pipe created
    rw [Pipe.create] at created
    obtain ⟨queue, -, rest⟩ := Option.bind_eq_some_iff.mp created
    obtain rfl := Option.some_inj.mp rest
    exact ⟨rfl, rfl⟩
  intro pipeEnd
  cases pipeEnd with
  | pipe0 => simp [start created0]
  | pipe1 => simp [start created1]

theorem Referring.pipeStep (referring : Referring pair trace) {pipeEnd : PipeEnd}
    {action : PipeAction α} {label : Option (PairLabel α)}
    (enabled : (pair.direction (acts pipeEnd action)).Enabled action)
    (done : pair.pipeStep pipeEnd action = some (label, next)) :
    Referring next (label.elim trace fun shown => trace ++ [shown]) := by
  obtain ⟨⟨shown, pipe⟩, moved, rest⟩ := Option.bind_eq_some_iff.mp done
  obtain ⟨rfl, rfl⟩ := Prod.mk.inj (Option.some_inj.mp rest)
  obtain ⟨terminated, marked⟩ := Pipe.termination_exec enabled moved
  have among : ∀ other, .pipe other .terminate ∈
      ((shown.map (.pipe pipeEnd)).elim trace fun label => trace ++ [label]) ↔
        .pipe other .terminate ∈ trace ∨ other = pipeEnd ∧ shown = some .terminate := by
    intro other
    cases shown with
    | none => simp
    | some label => simp [eq_comm]
  intro other
  rw [among]
  obtain ⟨referred, shownMarker⟩ := referring other
  cases writes : action.ofWriter with
  | true =>
      have here : acts pipeEnd action = pipeEnd := by simp [acts, writes]
      simp only [here] at terminated marked ⊢
      by_cases same : other = pipeEnd
      · subst same
        refine ⟨?_, ?_⟩
        · rw [Function.update_self, terminated]
          cases terminates (pair.direction other) shown <;> simp [referred]
        · rw [Function.update_self, marked, shownMarker]
          simp
      · refine ⟨?_, ?_⟩
        · rw [Function.update_of_ne same, ← referred]
          split
          · rw [Function.update_of_ne same]
          · rfl
        · rw [Function.update_of_ne same, shownMarker]
          simp [same]
  | false =>
      obtain ⟨writer, kept, unmarked, unflushed⟩ := Pipe.reader_exec writes moved
      have goesOn : terminates (pair.direction (acts pipeEnd action)) shown = false := by
        unfold terminates
        split
        · exact absurd rfl (unflushed _)
        · rfl
      simp only [goesOn, Bool.false_eq_true, if_false, unmarked, and_false, or_false]
      by_cases same : other = acts pipeEnd action
      · subst same
        rw [Function.update_self, kept, marked]
        exact ⟨referred, by simp [unmarked, shownMarker]⟩
      · rw [Function.update_of_ne same]
        exact ⟨referred, shownMarker⟩

/-- `Recyclemessage_t` reaches the allocator exactly when the end has not terminated. -/
theorem Referring.recycle (referring : Referring pair trace) {pipeEnd : PipeEnd} {index : Nat}
    {label : Option (PairLabel α)} (enabled : pair.Enabled (.recycle pipeEnd index))
    (done : pair.recycle pipeEnd index = some (label, next)) :
    ∃ msg reached, label = some (.recycle pipeEnd msg reached) ∧
      (reached = true ↔ .pipe pipeEnd .terminate ∉ trace) ∧
      Referring next (trace ++ [.recycle pipeEnd msg reached]) := by
  obtain ⟨msg, -, rest⟩ := Option.bind_eq_some_iff.mp done
  obtain ⟨referred, shownMarker⟩ := referring pipeEnd
  have idle : (pair.direction pipeEnd).writer = .idle := enabled.1.1
  have settled : (pair.direction pipeEnd).marked = (pair.direction pipeEnd).terminated := by
    rw [Pipe.marked, idle]
  rw [settled] at shownMarker
  have kept : ∀ reached, ∀ other : PipeEnd, (.pipe other .terminate ∈
      trace ++ [PairLabel.recycle pipeEnd msg reached]) ↔ .pipe other .terminate ∈ trace := by
    simp
  dsimp only at rest
  split at rest
  · rename_i held
    obtain ⟨rfl, rfl⟩ := Prod.mk.inj (Option.some_inj.mp rest)
    refine ⟨msg, true, rfl, ?_, fun other => ?_⟩
    · rw [← shownMarker]
      simpa [referred] using held
    · rw [kept]
      exact referring other
  · rename_i dropped
    obtain ⟨rfl, rfl⟩ := Prod.mk.inj (Option.some_inj.mp rest)
    refine ⟨msg, false, rfl, ?_, fun other => ?_⟩
    · rw [← shownMarker]
      simpa [referred] using dropped
    · rw [kept]
      exact referring other

/-- What a `Recyclemessage_t` may show after a trace. -/
def Returns (trace : List (PairLabel α)) : PairLabel α → Prop
  | .pipe _ _ => True
  | .recycle pipeEnd _ reached => reached = true ↔ .pipe pipeEnd .terminate ∉ trace

theorem simulation : Simulation (Step (α := α)) (fun _ _ => True) Returns
    (fun trace label => trace ++ [label]) Referring where
  silent := by
    rintro pair next trace referring ⟨action, enabled, done⟩
    cases action with
    | pipe pipeEnd action => exact referring.pipeStep enabled.1 done
    | recycle pipeEnd index =>
        obtain ⟨msg, reached, shown, -⟩ := referring.recycle enabled done
        cases shown
  visible := by
    rintro pair next trace label referring ⟨action, enabled, done⟩ -
    cases action with
    | pipe pipeEnd action =>
        have kept := referring.pipeStep enabled.1 done
        obtain ⟨⟨shown, pipe⟩, -, rest⟩ := Option.bind_eq_some_iff.mp done
        obtain ⟨same, -⟩ := Prod.mk.inj (Option.some_inj.mp rest)
        obtain ⟨label', -, rfl⟩ := Option.map_eq_some_iff.mp same
        exact ⟨trivial, kept⟩
    | recycle pipeEnd index =>
        obtain ⟨msg, reached, shown, returns, kept⟩ := referring.recycle enabled done
        obtain rfl := Option.some_inj.mp shown
        exact ⟨returns, kept⟩

/-- Every message given back reaches the allocator of the other end exactly when no end gives one
back after its own `Terminate`. -/
theorem recycled_iff_not_terminated {start : PipePair α} (initial : Initial start)
    (run : Run Step start trace pair) :
    (∀ pipeEnd msg reached, .recycle pipeEnd msg reached ∈ trace → reached = true) ↔
      ∀ before pipeEnd msg reached after,
        trace = before ++ .recycle pipeEnd msg reached :: after →
          .pipe pipeEnd .terminate ∉ before := by
  have whole : ∀ before : List (PairLabel α),
      before.foldl (fun trace label => trace ++ [label]) [] = before := by
    intro before
    induction before using List.reverseRecOn with
    | nil => rfl
    | append_singleton before label ih => rw [List.foldl_append, ih]; rfl
  obtain ⟨-, returns⟩ := simulation.follows initial.referring run fun _ _ _ _ => trivial
  have exact_ : ∀ before pipeEnd msg reached after,
      trace = before ++ .recycle pipeEnd msg reached :: after →
        (reached = true ↔ .pipe pipeEnd .terminate ∉ before) := by
    intro before pipeEnd msg reached after split
    have here := returns before _ after split
    rwa [whole] at here
  constructor
  · rintro reach before pipeEnd msg reached after split
    exact (exact_ before pipeEnd msg reached after split).mp
      (reach pipeEnd msg reached (by simp [split]))
  · rintro early pipeEnd msg reached among
    obtain ⟨before, after, split⟩ := List.append_of_mem among
    exact (exact_ before pipeEnd msg reached after split).mpr
      (early before pipeEnd msg reached after split)

/-- A pair, as `malloc` may have laid it out. -/
def start : PipePair Nat := (create (fun _ => 0) fun _ => 1).get rfl

theorem start_initial : Initial start := ⟨fun _ => 0, fun _ => 1, fun _ => Nat.one_ne_zero, rfl⟩

/-- One end writes a message, and the other one reads it. -/
def exchange : List (PairLabel Nat) :=
  [.pipe .pipe0 (.write (some 5) false), .pipe .pipe0 (.flushed false),
    .pipe .pipe1 (.read (some 5))]

/-- The end that has read the message terminates. -/
def termination : List (PairLabel Nat) :=
  [.pipe .pipe1 .terminate, .pipe .pipe1 (.flushed false)]

/-- The message can be given back before or after. -/
theorem exchange_runs :
    ∃ recycled lost, Run Step start (exchange ++ [.recycle .pipe1 5 true]) recycled ∧
      Run Step start (exchange ++ termination ++ [.recycle .pipe1 5 false]) lost := by
  have goesOn : ∀ goal : Prop, false = true → goal := by simp
  have written : Run Step start ([] ++ [.pipe .pipe0 (.write (some 5) false)]) _ :=
    (Run.nil.silent ⟨.pipe .pipe0 (.write (some 5) false), ⟨rfl, fun _ => ⟨rfl, rfl⟩⟩, rfl⟩).visible
      ⟨.pipe .pipe0 (.writer 2), ⟨⟨PipeWriter.writing_ne_idle _, rfl⟩, goesOn _⟩, rfl⟩
  have flushed : Run Step _ (_ ++ [.pipe .pipe0 (.flushed false)]) _ :=
    (written.silent
      ⟨.pipe .pipe0 (.writer 2), ⟨⟨PipeWriter.flushing_ne_idle _, rfl⟩, goesOn _⟩, rfl⟩).visible
      ⟨.pipe .pipe0 (.writer 2), ⟨⟨PipeWriter.flushing_ne_idle _, rfl⟩, goesOn _⟩, rfl⟩
  have taken := (((flushed.silent
    ⟨.pipe .pipe1 (.read 0), ⟨rfl, fun _ => ⟨rfl, rfl⟩⟩, rfl⟩).silent
    ⟨.pipe .pipe1 .reader, ⟨PipeReader.reading_ne_idle _, goesOn _⟩, rfl⟩).silent
    ⟨.pipe .pipe1 .reader, ⟨PipeReader.reading_ne_idle _, goesOn _⟩, rfl⟩).silent
    ⟨.pipe .pipe1 .reader, ⟨PipeReader.reading_ne_idle _, goesOn _⟩, rfl⟩
  have read : Run Step _ (_ ++ [.pipe .pipe1 (.read (some 5))]) _ :=
    taken.visible ⟨.pipe .pipe1 .reader, ⟨PipeReader.received_ne_idle _ _, goesOn _⟩, rfl⟩
  have marked : Run Step _ (_ ++ [.pipe .pipe1 .terminate]) _ :=
    (read.silent ⟨.pipe .pipe1 .terminate, ⟨rfl, fun _ => ⟨rfl, rfl⟩⟩, rfl⟩).visible
      ⟨.pipe .pipe1 (.writer 2), ⟨⟨PipeWriter.writing_ne_idle _, rfl⟩, goesOn _⟩, rfl⟩
  have ended : Run Step _ (_ ++ [.pipe .pipe1 (.flushed false)]) _ :=
    (marked.silent
      ⟨.pipe .pipe1 (.writer 2), ⟨⟨PipeWriter.flushing_ne_idle _, rfl⟩, goesOn _⟩, rfl⟩).visible
      ⟨.pipe .pipe1 (.writer 2), ⟨⟨PipeWriter.flushing_ne_idle _, rfl⟩, goesOn _⟩, rfl⟩
  exact ⟨_, _, read.visible ⟨.recycle .pipe1 0, ⟨⟨rfl, rfl⟩, by decide⟩, rfl⟩,
    ended.visible ⟨.recycle .pipe1 0, ⟨⟨rfl, rfl⟩, by decide⟩, rfl⟩⟩

theorem recycled_iff_not_terminated_exchange :
    (∀ pipeEnd msg reached,
        .recycle pipeEnd msg reached ∈ exchange ++ [.recycle .pipe1 5 true] → reached = true) ↔
      ∀ before pipeEnd msg reached after,
        exchange ++ [.recycle .pipe1 5 true] = before ++ .recycle pipeEnd msg reached :: after →
          .pipe pipeEnd .terminate ∉ before := by
  obtain ⟨_, -, recycled, -⟩ := exchange_runs
  exact recycled_iff_not_terminated start_initial recycled

/-- A message is read, the end that has read it terminates, and then gives it back to nobody. -/
theorem recycle_after_terminate_lost :
    Initial start ∧ (∃ pair, Run Step start
        (exchange ++ termination ++ [.recycle .pipe1 5 false]) pair) ∧
      ¬∀ pipeEnd msg reached,
        .recycle pipeEnd msg reached ∈ exchange ++ termination ++ [.recycle .pipe1 5 false] →
          reached = true := by
  obtain ⟨_, pair, -, lost⟩ := exchange_runs
  refine ⟨start_initial, ⟨pair, lost⟩, fun reaches => ?_⟩
  exact absurd (reaches .pipe1 5 false (by simp)) (by simp)

end PipePair

end FlashForwarder
