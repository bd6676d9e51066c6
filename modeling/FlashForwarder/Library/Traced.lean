import FlashForwarder.Library.Loop

/-!
# Traced computations

A computation that records events and may end in undefined behaviour.  `Safe` is its partial
correctness together with a condition on every event, `Meets` its total correctness.
-/

/-- The recorded events, and the result unless behaviour became undefined. -/
structure Traced (ε α : Type) where
  /-- What was recorded, in order. -/
  events : List ε
  /-- The result. -/
  outcome : Option α

namespace Traced

variable {ε α β : Type}

/-- Return a value and record nothing. -/
protected def pure (value : α) : Traced ε α := ⟨[], some value⟩

/-- Run one computation after another. -/
protected def bind (first : Traced ε α) (next : α → Traced ε β) : Traced ε β :=
  match first.outcome with
  | none => ⟨first.events, none⟩
  | some value => ⟨first.events ++ (next value).events, (next value).outcome⟩

instance : Monad (Traced ε) where
  pure := Traced.pure
  bind := Traced.bind

/-- Record an event. -/
def emit (event : ε) : Traced ε Unit := ⟨[event], some ()⟩

/-- Behaviour is undefined from here on. -/
def undefined : Traced ε α := ⟨[], none⟩

/-- Follow a pointer that may be null. -/
def ofOption : Option α → Traced ε α
  | none => undefined
  | some value => Traced.pure value

/-- Every event satisfies `allowed`, and the result, if there is one, satisfies `good`. -/
def Safe (allowed : ε → Prop) (good : α → Prop) (computation : Traced ε α) : Prop :=
  (∀ event ∈ computation.events, allowed event) ∧
    ∀ value, computation.outcome = some value → good value

/-- There is a result and it satisfies `good`. -/
def Meets (good : α → Prop) (computation : Traced ε α) : Prop :=
  ∃ value, computation.outcome = some value ∧ good value

variable {allowed : ε → Prop} {good : α → Prop} {final : β → Prop}

@[simp] theorem outcome_pure (value : α) : (pure value : Traced ε α).outcome = some value := rfl

@[simp] theorem events_pure (value : α) : (pure value : Traced ε α).events = [] := rfl

@[simp] theorem outcome_emit (event : ε) : (emit event).outcome = some () := rfl

@[simp] theorem events_emit_bind (event : ε) (next : Unit → Traced ε β) :
    (emit event >>= next).events = event :: (next ()).events := rfl

@[simp] theorem events_emit (event : ε) : (emit event).events = [event] := rfl

@[simp] theorem outcome_undefined : (undefined : Traced ε α).outcome = none := rfl

@[simp] theorem ofOption_some (value : α) : (ofOption (some value) : Traced ε α) = pure value := rfl

@[simp] theorem ofOption_none : (ofOption none : Traced ε α) = undefined := rfl

@[simp] theorem pure_bind (value : α) (next : α → Traced ε β) :
    pure value >>= next = next value := by
  simp [Bind.bind, Pure.pure, Traced.bind, Traced.pure]

/-- The result of a sequence is the result of its second part. -/
theorem outcome_bind (first : Traced ε α) (next : α → Traced ε β) :
    (first >>= next).outcome = first.outcome.bind fun value => (next value).outcome := by
  obtain ⟨events, _ | value⟩ := first <;> rfl

theorem Safe.pure {value : α} (holds : good value) : Safe allowed good (Pure.pure value) :=
  ⟨by simp, by rintro _ ⟨⟩; exact holds⟩

theorem Safe.anything (computation : Traced ε α) :
    Safe (fun _ => True) (fun _ => True) computation :=
  ⟨fun _ _ => trivial, fun _ _ => trivial⟩

theorem Safe.undefined : Safe allowed good (undefined : Traced ε α) :=
  ⟨by simp [Traced.undefined], by simp⟩

theorem Safe.emit {event : ε} (holds : allowed event) : Safe allowed (fun _ => True) (emit event) :=
  ⟨by simpa [Traced.emit] using holds, by simp⟩

theorem Safe.ofOption {pointer : Option α} (holds : ∀ value, pointer = some value → good value) :
    Safe allowed good (ofOption pointer) := by
  cases pointer with
  | none => exact Safe.undefined
  | some value => exact Safe.pure (holds value rfl)

theorem Safe.bind {first : Traced ε α} {next : α → Traced ε β} (before : Safe allowed good first)
    (after : ∀ value, good value → Safe allowed final (next value)) :
    Safe allowed final (first >>= next) := by
  obtain ⟨events, outcome⟩ := first
  obtain ⟨recorded, result⟩ := before
  cases outcome with
  | none => exact ⟨recorded, by simp [outcome_bind]⟩
  | some value =>
      obtain ⟨later, last⟩ := after value (result value rfl)
      refine ⟨?_, by simpa [outcome_bind] using last⟩
      intro event member
      rcases List.mem_append.mp member with early | late
      · exact recorded event early
      · exact later event late

theorem Safe.mono {computation : Traced ε α} {allowed' : ε → Prop} {good' : α → Prop}
    (safe : Safe allowed good computation) (wider : ∀ event, allowed event → allowed' event)
    (weaker : ∀ value, good value → good' value) : Safe allowed' good' computation :=
  ⟨fun event member => wider event (safe.1 event member),
    fun value result => weaker value (safe.2 value result)⟩

theorem Meets.pure {value : α} (holds : good value) : Meets good (Pure.pure value : Traced ε α) :=
  ⟨value, rfl, holds⟩

theorem Meets.emit (event : ε) : Meets (fun _ => True) (emit event) := ⟨(), rfl, trivial⟩

theorem Meets.of_outcome {computation : Traced ε α} {value : α}
    (returned : computation.outcome = some value) : Meets (· = value) computation :=
  ⟨value, returned, rfl⟩

theorem Meets.bind {first : Traced ε α} {next : α → Traced ε β} (before : Meets good first)
    (after : ∀ value, good value → Meets final (next value)) :
    Meets final (first >>= next) := by
  obtain ⟨value, result, holds⟩ := before
  obtain ⟨last, lastResult, lastHolds⟩ := after value holds
  exact ⟨last, by simp [outcome_bind, result, lastResult], lastHolds⟩

theorem Meets.mono {computation : Traced ε α} {good' : α → Prop} (meets : Meets good computation)
    (weaker : ∀ value, good value → good' value) : Meets good' computation := by
  obtain ⟨value, result, holds⟩ := meets
  exact ⟨value, result, weaker value holds⟩

/-! ## Loops -/

open ProgramLoop

variable {σ ρ : Type}

/-- Make at most `fuel` passes; no result when they do not suffice. -/
def loop (pass : σ → Traced ε (Pass σ ρ)) : Nat → σ → Traced ε ρ
  | 0, _ => undefined
  | fuel + 1, state => do
      match ← pass state with
      | .leave result => pure result
      | .again next => loop pass fuel next

/-- The loop ends and returns `result`. -/
def Returns (pass : σ → Traced ε (Pass σ ρ)) (state : σ) (result : ρ) : Prop :=
  ∃ fuel, (loop pass fuel state).outcome = some result

variable {pass : σ → Traced ε (Pass σ ρ)} {state next : σ} {result : ρ}

theorem Returns.of_leave (left : (pass state).outcome = some (.leave result)) :
    Returns pass state result :=
  ⟨1, by simp [loop, outcome_bind, left]⟩

theorem returns_iff_of_again (repeated : (pass state).outcome = some (.again next)) :
    Returns pass state result ↔ Returns pass next result := by
  constructor
  · rintro ⟨_ | fuel, ended⟩
    · simp [loop] at ended
    · exact ⟨fuel, by simpa [loop, outcome_bind, repeated] using ended⟩
  · rintro ⟨fuel, ended⟩
    exact ⟨fuel + 1, by simpa [loop, outcome_bind, repeated] using ended⟩

theorem outcome_loop_add {fuel : Nat} (more : Nat)
    (ended : (loop pass fuel state).outcome = some result) :
    (loop pass (fuel + more) state).outcome = some result := by
  induction fuel generalizing state with
  | zero => simp [loop] at ended
  | succ fuel ih =>
      rw [Nat.add_right_comm]
      cases step : (pass state).outcome with
      | none => simp [loop, outcome_bind, step] at ended
      | some value =>
          cases value with
          | leave => simpa [loop, outcome_bind, step] using ended
          | again next =>
              simp only [loop, outcome_bind, step, Option.bind_some] at ended ⊢
              exact ih ended

theorem Returns.unique {other : ρ} (first : Returns pass state result)
    (second : Returns pass state other) : result = other := by
  obtain ⟨fuel, ended⟩ := first
  obtain ⟨fuel', ended'⟩ := second
  have left := outcome_loop_add fuel' ended
  have right := outcome_loop_add fuel ended'
  rw [Nat.add_comm] at right
  exact Option.some_inj.mp (left.symm.trans right)

/-- What a pass must establish: the invariant if it goes round again, and `good` if it leaves. -/
def Keeps (invariant : σ → Prop) (good : ρ → Prop) : Pass σ ρ → Prop
  | .leave result => good result
  | .again next => invariant next

/-- The states that successive passes go through. -/
inductive Reaches (pass : σ → Traced ε (Pass σ ρ)) : σ → σ → Prop
  | refl (state : σ) : Reaches pass state state
  | step {state next last : σ} : (pass state).outcome = some (.again next) →
      Reaches pass next last → Reaches pass state last

/-- A loop ends if every pass does and shrinks a natural number. -/
theorem exists_returns_of_variant {invariant : σ → Prop} (variant : σ → Nat)
    (passes : ∀ next, Reaches pass state next → invariant next →
      Meets (fun exit => ∀ later, exit = .again later →
        invariant later ∧ variant later < variant next) (pass next))
    (holds : invariant state) : ∃ result, Returns pass state result := by
  induction size : variant state using Nat.strongRecOn generalizing state with
  | _ bound ih =>
      obtain ⟨exit, passed, shrinks⟩ := passes state (.refl state) holds
      cases exit with
      | leave result => exact ⟨result, .of_leave passed⟩
      | again next =>
          obtain ⟨kept, smaller⟩ := shrinks next rfl
          obtain ⟨result, returned⟩ := ih (variant next) (size ▸ smaller)
            (fun later reached => passes later (.step passed reached)) kept rfl
          exact ⟨result, (returns_iff_of_again passed).mpr returned⟩

/-- A condition that every pass keeps holds in every state that is reached. -/
theorem Reaches.keeps {invariant : σ → Prop} {good : ρ → Prop} {last : σ}
    (reaches : Reaches pass state last)
    (keeps : ∀ next, Reaches pass state next → invariant next →
      Safe allowed (Keeps invariant good) (pass next))
    (holds : invariant state) : invariant last := by
  induction reaches with
  | refl => exact holds
  | step again _ ih =>
      exact ih (fun next later => keeps next (.step again later))
        ((keeps _ (.refl _) holds).2 _ again)

/-- A condition that every pass keeps holds to the end of the loop. -/
theorem Safe.loop {invariant : σ → Prop} {good : ρ → Prop}
    (keeps : ∀ next, Reaches pass state next → invariant next →
      Safe allowed (Keeps invariant good) (pass next))
    (fuel : Nat) (holds : invariant state) : Safe allowed good (Traced.loop pass fuel state) := by
  induction fuel generalizing state with
  | zero => exact Safe.undefined
  | succ fuel ih =>
      have passed := keeps state (.refl state) holds
      cases outcome : (pass state).outcome with
      | none =>
          refine ⟨?_, by simp [Traced.loop, outcome_bind, outcome]⟩
          obtain ⟨events, _⟩ := passed
          simpa [Traced.loop, Bind.bind, Traced.bind, outcome] using events
      | some value =>
          have kept := passed.2 _ outcome
          have returned : Safe allowed (value = ·) (pass state) := ⟨passed.1, by simp [outcome]⟩
          refine returned.bind ?_
          rintro _ ⟨⟩
          cases value with
          | leave result => exact Safe.pure kept
          | again next => exact ih (fun later reached => keeps later (.step outcome reached)) kept

end Traced
