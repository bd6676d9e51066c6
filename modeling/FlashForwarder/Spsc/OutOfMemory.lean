import FlashForwarder.Spsc.Refinement

/-!
# When memory runs out

`Push` moves the back before it allocates, and when `malloc` returns null it moves only the end back
again.  `Write` ignores what `Push` returns.  The value of the next `Write` is then overwritten by
the one after it.
-/

namespace FlashForwarder

open Transition

variable {α : Type}

/-- `Push`, after the exchange of the spare chunk has found none and `malloc` has returned null; and
what it returns. -/
def BatchQueue.pushFails (queue : BatchQueue α) : Int × BatchQueue α :=
  (-1, { queue with endPos := queue.endPos - 1 })

namespace SpscQueue

/-- A queue, and what it was when `Write` was called last. -/
structure Scarce (α : Type) where
  /-- The queue. -/
  queue : SpscQueue α
  /-- The queue at the last call of `Write`. -/
  called : SpscQueue α

/-- What is seen of a step. -/
inductive Report (α : Type) where
  /-- A call has ended in which no allocation failed. -/
  | call (label : Label α)
  /-- A `Write` has ended in which an allocation failed: what it returned, the queue when it was
  called, and the queue when it ended. -/
  | starved (value : α) (incomplete : Bool) (returned : Int) (called ended : SpscQueue α)

/-- One step of either thread. -/
inductive Event (α : Type) where
  /-- A step in which no allocation fails. -/
  | act (action : Action α)
  /-- The writer goes on in `Push`, and `malloc` returns null. -/
  | outOfMemory

namespace Scarce

variable (N : Nat) (state : Scarce α)

/-- `malloc` is called, and can fail, when there is no spare chunk. -/
def Enabled : Event α → Prop
  | .act action => state.queue.Enabled action
  | .outOfMemory =>
      (∃ value incomplete, state.queue.writer = .pushing value incomplete) ∧
        state.queue.queue.spareChunk = none

/-- The end of `Write`, whatever `Push` has returned. -/
def writeFails (value : α) (incomplete : Bool) : Option (Report α) × Scarce α :=
  let (_, queue) := state.queue.queue.pushFails
  let ended := state.queue.written queue incomplete
  (some (.starved value incomplete 0 state.called ended), { state with queue := ended })

/-- What a step does, unless its behaviour is undefined. -/
def exec : Event α → Option (Option (Report α) × Scarce α)
  | .act action => do
      let (label, queue) ← state.queue.exec N action
      let called := match action with
        | .write _ _ => state.queue
        | _ => state.called
      return (label.map .call, ⟨queue, called⟩)
  | .outOfMemory =>
      match state.queue.writer with
      | .pushing value incomplete => some (state.writeFails value incomplete)
      | _ => none

/-- One step of either thread, whether memory is left or not. -/
def Step (state : Scarce α) (report : Option (Report α)) (next : Scarce α) : Prop :=
  ∃ event, state.Enabled event ∧ state.exec N event = some (report, next)

end Scarce

/-! ## What is promised -/

/-- What a report adds to the history, in which a `Write` counts if it returned zero. -/
def accept (history : History α) : Report α → History α
  | .call label => history.next label
  | .starved value incomplete returned _ _ =>
      if returned = 0 then history.next (.write value incomplete) else history

/-- The history of a trace. -/
def accepted (reports : List (Report α)) : History α := reports.foldl accept {}

/-- An allocation failed. -/
def Report.Starved : Report α → Prop
  | .call _ => False
  | .starved _ _ _ _ _ => True

/-- The members that the writer changes are the same. -/
structure SameWriter (ended called : SpscQueue α) : Prop where
  back : ended.queue.back = called.queue.back
  endChunk : ended.queue.endChunk = called.queue.endChunk
  endPos : ended.queue.endPos = called.queue.endPos
  fItem : ended.fItem = called.fItem
  wItem : ended.wItem = called.wItem

/-- The call was one of `Read`. -/
def Report.isRead : Report α → Bool
  | .call label => SpscQueue.isRead label
  | .starved _ _ _ _ _ => false

/-- How often `Read` was called. -/
def polls (reports : List (Report α)) : Nat := reports.countP Report.isRead

/-- Running out of memory loses nothing: a `Write` whose allocation fails says so and leaves the
queue as it was; and what the other ones have completed is returned, each value once and in order,
when it is flushed and `Read` is called as often as there are values. -/
structure LosesNothing (N : Nat) (reports : List (Report α)) (state : SpscQueue α) : Prop where
  reported : ∀ value incomplete returned called ended,
    .starved value incomplete returned called ended ∈ reports →
    returned ≠ 0 ∧ SameWriter ended called
  in_order : (accepted reports).returned <+: (accepted reports).written
  delivered : ∀ before returned polled after,
    reports = before ++ .call (.flush returned) :: (polled ++ after) →
    (accepted before).completed ≤ (accepted before).returned.length + polls polled →
    (accepted before).written.take (accepted before).completed <+:
      (accepted (before ++ .call (.flush returned) :: polled)).returned
  /-- No step is undefined. -/
  goes_on : ∀ action, state.Enabled action → (state.exec N action).isSome

/-! ## What is kept -/

variable {N : Nat} {start state next : Scarce α} {report : Option (Report α)}
  {reports : List (Report α)}

/-- A step is one that the queue makes anyway, or the end of a `Write` whose allocation failed. -/
theorem Scarce.step_cases (stepped : Scarce.Step N state report next) :
    (∃ action label, state.queue.Enabled action ∧
      state.queue.exec N action = some (label, next.queue) ∧ report = label.map .call) ∨
    ∃ value incomplete, state.queue.writer = .pushing value incomplete ∧
      next.queue = state.queue.written state.queue.queue.pushFails.2 incomplete ∧
      report = some (.starved value incomplete 0 state.called next.queue) := by
  obtain ⟨event, enabled, done⟩ := stepped
  cases event with
  | act action =>
      obtain ⟨⟨label, queue⟩, result, done⟩ := Option.bind_eq_some_iff.mp done
      obtain ⟨rfl, rfl⟩ := Prod.mk.inj (Option.some_inj.mp done)
      exact Or.inl ⟨action, label, enabled, result, rfl⟩
  | outOfMemory =>
      obtain ⟨⟨value, incomplete, pushing⟩, -⟩ := enabled
      rw [Scarce.exec, pushing] at done
      obtain ⟨rfl, rfl⟩ := Prod.mk.inj (Option.some_inj.mp done)
      exact Or.inr ⟨value, incomplete, pushing, rfl, rfl⟩

/-- A run in which no allocation fails is one that the queue makes anyway. -/
theorem Scarce.run_of_plenty (run : Run (Scarce.Step N) start reports state)
    (plenty : ∀ report ∈ reports, ¬report.Starved) :
    ∃ labels, reports = labels.map .call ∧
      Run (SpscQueue.Step N) start.queue labels state.queue := by
  induction run with
  | nil => exact ⟨[], rfl, Run.nil⟩
  | silent _ stepped ih =>
      obtain ⟨labels, rfl, run⟩ := ih plenty
      rcases Scarce.step_cases stepped with ⟨action, label, enabled, done, same⟩ |
        ⟨_, _, _, _, same⟩
      · obtain rfl : label = none := Option.map_eq_none_iff.mp same.symm
        exact ⟨labels, rfl, run.silent ⟨action, enabled, done⟩⟩
      · simp at same
  | visible _ stepped ih =>
      obtain ⟨labels, rfl, run⟩ := ih fun report member => plenty report (by simp [member])
      rcases Scarce.step_cases stepped with ⟨action, label, enabled, done, same⟩ |
        ⟨_, _, _, _, same⟩
      · obtain ⟨label, rfl, rfl⟩ := Option.map_eq_some_iff.mp same.symm
        exact ⟨labels ++ [label], by simp, run.visible ⟨action, enabled, done⟩⟩
      · obtain rfl := Option.some_inj.mp same
        exact absurd trivial (plenty _ (List.mem_append_right _ (List.mem_singleton_self _)))

/-- A `Write` whose allocation failed has returned zero. -/
theorem Scarce.returned_zero (run : Run (Scarce.Step N) start reports state) {value : α}
    {incomplete : Bool} {returned : Int} {called ended : SpscQueue α}
    (member : .starved value incomplete returned called ended ∈ reports) : returned = 0 := by
  induction run with
  | nil => simp at member
  | silent _ _ ih => exact ih member
  | visible _ stepped ih =>
      rcases List.mem_append.mp member with earlier | last
      · exact ih earlier
      · obtain rfl := List.mem_singleton.mp last
        rcases Scarce.step_cases stepped with ⟨_, label, _, _, same⟩ | ⟨_, _, _, _, same⟩
        · obtain ⟨label, rfl, impossible⟩ := Option.map_eq_some_iff.mp same.symm
          simp at impossible
        · simp at same
          exact same.2.2.1

theorem accepted_map_call (labels : List (Label α)) :
    accepted (labels.map Report.call) = history labels := by
  rw [accepted, List.foldl_map]
  rfl

theorem polls_map_call (labels : List (Label α)) :
    polls (labels.map Report.call) = reads labels := by
  rw [polls, reads, List.countP_map]
  rfl

/-- In a run of the queue itself nothing is lost. -/
theorem losesNothing_of_labels (positive : 0 < N) {start state : SpscQueue α}
    {labels : List (Label α)} (initial : Initial N start)
    (run : Run (SpscQueue.Step N) start labels state) :
    LosesNothing N (labels.map .call) state := by
  have allowed : Allowed labels :=
    ((simulation positive).follows (initial.refines positive) run fun _ _ _ _ => trivial).2
  refine
    { reported := ?_
      in_order := by rw [accepted_map_call]; exact allowed.orderly.returned
      delivered := ?_
      goes_on := (delivers_in_order positive initial run).2.2.2.2.2 }
  · intro value incomplete returned called ended member
    simp at member
  · intro before returned polled after split enough
    obtain ⟨before, rest, rfl, rfl, split_rest⟩ := List.map_eq_append_iff.mp split
    obtain ⟨flush, rest, rfl, same, split_rest⟩ := List.map_eq_cons_iff.mp split_rest
    obtain ⟨polled, after, rfl, rfl, -⟩ := List.map_eq_append_iff.mp split_rest
    obtain rfl : flush = .flush returned := by simpa using same
    rw [← List.cons_append, ← List.append_assoc] at allowed
    have allowed : Allowed (before ++ .flush returned :: polled) := allowed.of_append
    have joined := accepted_map_call (before ++ .flush returned :: polled)
    rw [List.map_append, List.map_cons] at joined
    rw [accepted_map_call, polls_map_call] at enough
    rw [accepted_map_call, joined]
    exact allowed.delivered enough

/-- Nothing is lost in a run if and only if no allocation fails in it. -/
theorem losesNothing_iff (positive : 0 < N) (initial : Initial N start.queue)
    (run : Run (Scarce.Step N) start reports state) :
    LosesNothing N reports state.queue ↔ ∀ report ∈ reports, ¬report.Starved := by
  constructor
  · intro nothing report member starved
    cases report with
    | call label => exact starved
    | starved value incomplete returned called ended =>
        exact (nothing.reported _ _ _ _ _ member).1 (Scarce.returned_zero run member)
  · intro plenty
    obtain ⟨labels, rfl, run'⟩ := Scarce.run_of_plenty run plenty
    exact losesNothing_of_labels positive initial run'

/-- One item goes through a queue while there is memory. -/
theorem losesNothing_iff_plenty :
    ∃ start state, Run (Scarce.Step 1) start
        [.call (.write 7 false), .call (.flush true), .call (.read (some 7))] state ∧
      LosesNothing 1 [.call (.write 7 false), .call (.flush true), .call (.read (some 7))]
        state.queue := by
  have initial : Initial 1 ((init (α := Nat) 1 0 1).get rfl) := ⟨0, 1, by decide, rfl⟩
  have written : Run (Scarce.Step 1)
      ⟨(init (α := Nat) 1 0 1).get rfl, (init (α := Nat) 1 0 1).get rfl⟩
      ([] ++ [Report.call (.write 7 false)]) _ :=
    (Run.nil.silent ⟨.act (.write 7 false), rfl, rfl⟩).visible ⟨.act (.writer 2), ⟨nofun, rfl⟩, rfl⟩
  have flushed : Run (Scarce.Step 1) _ (_ ++ [Report.call (.flush true)]) _ :=
    (written.silent ⟨.act .flush, rfl, rfl⟩).visible ⟨.act (.writer 3), ⟨nofun, rfl⟩, rfl⟩
  have taken : Run (Scarce.Step 1) _ (_ ++ [Report.call (.read (some 7))]) _ :=
    ((flushed.silent ⟨.act .read, rfl, rfl⟩).silent ⟨.act .reader, nofun, rfl⟩).visible
      ⟨.act .reader, nofun, rfl⟩
  exact ⟨_, _, taken, (losesNothing_iff Nat.one_pos initial taken).mpr (by simp [Report.Starved])⟩

/-- An allocation fails in the first `Write`, and the value of the second one is never returned. -/
theorem second_value_lost :
    ∃ (start state : Scarce Nat) (reports : List (Report Nat)), Initial 2 start.queue ∧
      Run (Scarce.Step 2) start reports state ∧
      (accepted reports).written = [1, 2, 3] ∧ (accepted reports).returned = [1, 3] ∧
      reports.getLast? = some (.call (.read none)) ∧ ¬LosesNothing 2 reports state.queue := by
  have initial : Initial 2 ((init (α := Nat) 2 0 1).get rfl) := ⟨0, 1, by decide, rfl⟩
  have first : Run (Scarce.Step 2)
      ⟨(init (α := Nat) 2 0 1).get rfl, (init (α := Nat) 2 0 1).get rfl⟩
      ([] ++ [Report.starved 1 false 0 _ _]) _ :=
    (Run.nil.silent ⟨.act (.write 1 false), rfl, rfl⟩).visible
      ⟨.outOfMemory, ⟨⟨1, false, rfl⟩, rfl⟩, rfl⟩
  have second : Run (Scarce.Step 2) _ (_ ++ [Report.call (.write 2 false)]) _ :=
    (first.silent ⟨.act (.write 2 false), rfl, rfl⟩).visible ⟨.act (.writer 1), ⟨nofun, rfl⟩, rfl⟩
  have third : Run (Scarce.Step 2) _ (_ ++ [Report.call (.write 3 false)]) _ :=
    second.visible ⟨.act (.write 3 false), rfl, rfl⟩
  have flushed : Run (Scarce.Step 2) _ (_ ++ [Report.call (.flush true)]) _ :=
    (third.silent ⟨.act .flush, rfl, rfl⟩).visible ⟨.act (.writer 2), ⟨nofun, rfl⟩, rfl⟩
  have one : Run (Scarce.Step 2) _ (_ ++ [Report.call (.read (some 1))]) _ :=
    ((flushed.silent ⟨.act .read, rfl, rfl⟩).silent ⟨.act .reader, nofun, rfl⟩).visible
      ⟨.act .reader, nofun, rfl⟩
  have three : Run (Scarce.Step 2) _ (_ ++ [Report.call (.read (some 3))]) _ :=
    (one.silent ⟨.act .read, rfl, rfl⟩).visible ⟨.act .reader, nofun, rfl⟩
  have polled : Run (Scarce.Step 2) _ (_ ++ [Report.call (.read none)]) _ :=
    ((three.silent ⟨.act .reader, nofun, rfl⟩).silent ⟨.act .read, rfl, rfl⟩).visible
      ⟨.act .reader, nofun, rfl⟩
  refine ⟨_, _, _, initial, polled, rfl, rfl, rfl, fun nothing => ?_⟩
  have in_order : [1, 3] <+: [1, 2, 3] := nothing.in_order
  exact absurd in_order (by decide)

end SpscQueue

end FlashForwarder
