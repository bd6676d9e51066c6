import Mathlib.Data.List.Induction
import Mathlib.Tactic.TypeStar

/-!
# Labelled transition systems

A system steps silently or with a visible label.  A monitor reads the labels one by one and keeps a
history of them.  A simulation shows, of the runs whose labels are as assumed, that every label is
one the monitor allows.  The last section is about systems that answer to events, and about what
their runs keep or meet when every step meets a condition.
-/

namespace Transition

variable {σ ℓ κ : Type*}

/-- The finite runs of a system, with the labels that were visible. -/
inductive Run (step : σ → Option ℓ → σ → Prop) (start : σ) : List ℓ → σ → Prop
  | nil : Run step start [] start
  | silent {trace : List ℓ} {state next : σ} : Run step start trace state →
      step state none next → Run step start trace next
  | visible {trace : List ℓ} {state next : σ} {label : ℓ} : Run step start trace state →
      step state (some label) next → Run step start (trace ++ [label]) next

/-- Every label of a trace meets a condition on it and on the history before it. -/
def Throughout (meets : κ → ℓ → Prop) (next : κ → ℓ → κ) (start : κ) (trace : List ℓ) : Prop :=
  ∀ before label after, trace = before ++ label :: after →
    meets (before.foldl next start) label

variable {step : σ → Option ℓ → σ → Prop} {assumes allows : κ → ℓ → Prop} {next : κ → ℓ → κ}
  {start : κ} {trace : List ℓ} {label : ℓ}

theorem Throughout.nil : Throughout allows next start [] := by
  intro before label after split
  simp at split

/-- What holds throughout a trace holds throughout its beginning. -/
theorem Throughout.of_append {later : List ℓ}
    (whole : Throughout allows next start (trace ++ later)) :
    Throughout allows next start trace := by
  intro before label after split
  exact whole before label (after ++ later) (by rw [split, List.append_assoc]; rfl)

theorem throughout_concat : Throughout allows next start (trace ++ [label]) ↔
    Throughout allows next start trace ∧ allows (trace.foldl next start) label := by
  constructor
  · intro whole
    refine ⟨fun before label' after split => ?_, whole trace label [] rfl⟩
    exact whole before label' (after ++ [label]) (by rw [split, List.append_assoc]; rfl)
  · rintro ⟨earlier, here⟩ before label' after split
    rcases List.eq_nil_or_concat after with rfl | ⟨inner, last, rfl⟩
    · obtain ⟨rfl, same⟩ := List.append_inj' split rfl
      obtain rfl := List.head_eq_of_cons_eq same
      exact here
    · rw [List.concat_eq_append, ← List.cons_append, ← List.append_assoc] at split
      obtain ⟨rfl, _⟩ := List.append_inj' split rfl
      exact earlier before label' inner rfl

/-- A label that meets the condition after any history. -/
theorem Throughout.concat (earlier : Throughout allows next start trace)
    (always : ∀ history, allows history label) :
    Throughout allows next start (trace ++ [label]) :=
  throughout_concat.mpr ⟨earlier, always _⟩

/-- A relation between a system and a monitor that silent steps leave alone.  A visible step whose
label is as assumed shows a label that is allowed, and carries the relation along. -/
structure Simulation (step : σ → Option ℓ → σ → Prop) (assumes allows : κ → ℓ → Prop)
    (next : κ → ℓ → κ) (related : σ → κ → Prop) : Prop where
  silent : ∀ state state' history, related state history → step state none state' →
    related state' history
  visible : ∀ state state' history label, related state history →
    step state (some label) state' → assumes history label →
    allows history label ∧ related state' (next history label)

/-- The run of a simulated system stays related, and every label of it is allowed. -/
theorem Simulation.follows {related : σ → κ → Prop}
    (simulation : Simulation step assumes allows next related) {start state : σ} {history : κ}
    (initial : related start history) (run : Run step start trace state)
    (assumed : Throughout assumes next history trace) :
    related state (trace.foldl next history) ∧ Throughout allows next history trace := by
  induction run with
  | nil => exact ⟨initial, Throughout.nil⟩
  | silent _ stepped ih =>
      exact ⟨simulation.silent _ _ _ (ih assumed).1 stepped, (ih assumed).2⟩
  | visible _ stepped ih =>
      obtain ⟨earlier, label_assumed⟩ := throughout_concat.mp assumed
      obtain ⟨here, kept⟩ := simulation.visible _ _ _ _ (ih earlier).1 stepped label_assumed
      exact ⟨by rw [List.foldl_append]; exact kept, throughout_concat.mpr ⟨(ih earlier).2, here⟩⟩

/-! ## Runs of events -/

variable {ι : Type*} {initial : σ → Prop} {enabled : σ → ι → Prop} {exec : σ → ι → σ}

/-- The runs of a system that answers to events, with the state in which each event came. -/
inductive Execution (initial : σ → Prop) (enabled : σ → ι → Prop) (exec : σ → ι → σ) :
    List (σ × ι) → σ → Prop
  | nil {state : σ} : initial state → Execution initial enabled exec [] state
  | step {steps : List (σ × ι)} {state : σ} :
      Execution initial enabled exec steps state → ∀ event, enabled state event →
      Execution initial enabled exec (steps ++ [(state, event)]) (exec state event)

/-- A condition that every event keeps, provided it comes as assumed, holds at the end of a run
whose events came as assumed. -/
theorem Execution.keeps (invariant : σ → Prop) (assumed : σ → ι → Prop) {steps : List (σ × ι)}
    {state : σ} (run : Execution initial enabled exec steps state)
    (holds : ∀ start, initial start → invariant start)
    (kept : ∀ before event, invariant before → enabled before event → assumed before event →
      invariant (exec before event))
    (as_assumed : ∀ step ∈ steps, assumed step.1 step.2) : invariant state := by
  induction run with
  | nil start => exact holds _ start
  | step _ event came ih =>
      have earlier := ih fun step member => as_assumed step (List.mem_append_left _ member)
      have last := as_assumed _ (List.mem_append_right _ (List.mem_singleton_self _))
      exact kept _ _ earlier came last

/-- If each event adds to a property exactly that it came as assumed, then the property holds of
those runs whose events came as assumed. -/
theorem Execution.exactly (invariant property : σ → Prop) (assumed : σ → ι → Prop)
    {steps : List (σ × ι)} {state : σ} (run : Execution initial enabled exec steps state)
    (holds : ∀ start, initial start → invariant start ∧ property start)
    (kept : ∀ before event, invariant before → enabled before event →
      invariant (exec before event) ∧
        (property (exec before event) ↔ property before ∧ assumed before event)) :
    property state ↔ ∀ step ∈ steps, assumed step.1 step.2 := by
  have both : invariant state ∧ (property state ↔ ∀ step ∈ steps, assumed step.1 step.2) := by
    induction run with
    | nil start =>
        obtain ⟨first, met⟩ := holds _ start
        exact ⟨first, by simp [met]⟩
    | step _ event came ih =>
        obtain ⟨earlier, same⟩ := ih
        obtain ⟨later, grows⟩ := kept _ _ earlier came
        refine ⟨later, ?_⟩
        rw [grows, same, List.forall_mem_append]
        simp
  exact both.2

end Transition
