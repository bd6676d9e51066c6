import FlashForwarder.Library.Traced
import Mathlib.Data.Option.Basic

/-!
# Two computations side by side

One traced computation mirrors another when it ends as the other does.  The other's events may be
assumed to be allowed, and some of its outcomes may be exempt.  The rules follow the structure that
the two have in common.
-/

namespace Traced

open ProgramLoop

variable {ε α β α' β' σ σ' ρ ρ' : Type}

/-- If the events of `first` are allowed, its outcome is exempt or the outcome of `second` is
related to it. -/
def Mirrors (allowed : ε → Prop) (exempt : Option α → Prop) (related : α → α' → Prop)
    (first : Traced ε α) (second : Traced ε α') : Prop :=
  (∀ event ∈ first.events, allowed event) →
    exempt first.outcome ∨ Option.Rel related first.outcome second.outcome

/-- No outcome is exempt. -/
def Never (_ : Option α) : Prop := False

variable {allowed : ε → Prop} {exempt : Option α → Prop} {related : α → α' → Prop}
  {final : Option β → Prop} {ending : β → β' → Prop}

theorem Mirrors.pure {value : α} {value' : α'} (holds : related value value') :
    Mirrors allowed exempt related (Pure.pure value) (Pure.pure value') :=
  fun _ => Or.inr (.some holds)

theorem Mirrors.undefined :
    Mirrors allowed exempt related (undefined : Traced ε α) (undefined : Traced ε α') :=
  fun _ => Or.inr .none

theorem Mirrors.of_exempt {first : Traced ε α} {second : Traced ε α'}
    (exempted : exempt first.outcome) : Mirrors allowed exempt related first second :=
  fun _ => Or.inl exempted

theorem Mirrors.mono {exempt' : Option α → Prop} {first : Traced ε α} {second : Traced ε α'}
    (mirrors : Mirrors allowed exempt related first second)
    (wider : ∀ outcome, exempt outcome → exempt' outcome) :
    Mirrors allowed exempt' related first second :=
  fun events => (mirrors events).imp_left (wider _)

/-- The event of the first computation may be used from there on. -/
theorem Mirrors.emit {event event' : ε} {next : Unit → Traced ε β} {next' : Unit → Traced ε β'}
    (after : allowed event → Mirrors allowed final ending (next ()) (next' ())) :
    Mirrors allowed final ending (emit event >>= next) (emit event' >>= next') := by
  intro events
  rw [events_emit_bind] at events
  exact after (events event (by simp)) fun other member => events other (by simp [member])

/-- Sequences are mirrored part by part; an exempt first part must make the whole exempt. -/
theorem Mirrors.bind {first : Traced ε α} {second : Traced ε α'} {next : α → Traced ε β}
    {next' : α' → Traced ε β'} (before : Mirrors allowed exempt related first second)
    (after : ∀ value value', related value value' →
      Mirrors allowed final ending (next value) (next' value'))
    (lost : exempt none → final none)
    (skipped : ∀ value, exempt (some value) → final (next value).outcome) :
    Mirrors allowed final ending (first >>= next) (second >>= next') := by
  obtain ⟨events, outcome⟩ := first
  obtain ⟨events', outcome'⟩ := second
  intro recorded
  cases outcome with
  | none =>
      rcases before recorded with exempted | same
      · exact Or.inl (lost exempted)
      · cases same
        exact Or.inr .none
  | some value =>
      have early : ∀ event ∈ events, allowed event :=
        fun event member => recorded event (List.mem_append_left _ member)
      have late : ∀ event ∈ (next value).events, allowed event :=
        fun event member => recorded event (List.mem_append_right _ member)
      rcases before early with exempted | same
      · exact Or.inl (skipped value exempted)
      · cases same with
        | some holds => exact after _ _ holds late

/-- The rule for a first part without exemptions. -/
theorem Mirrors.bind_exact {first : Traced ε α} {second : Traced ε α'} {next : α → Traced ε β}
    {next' : α' → Traced ε β'} (before : Mirrors allowed Never related first second)
    (after : ∀ value value', related value value' →
      Mirrors allowed final ending (next value) (next' value')) :
    Mirrors allowed final ending (first >>= next) (second >>= next') :=
  before.bind after (fun never => never.elim) fun _ never => never.elim

/-- Without exemptions, results that are related by equality are the same. -/
theorem Mirrors.outcome_eq {first second : Traced ε α}
    (mirrors : Mirrors allowed Never Eq first second)
    (recorded : ∀ event ∈ first.events, allowed event) : second.outcome = first.outcome := by
  obtain ⟨events, outcome⟩ := first
  obtain ⟨events', outcome'⟩ := second
  rcases mirrors recorded with never | same
  · exact never.elim
  · cases same with
    | none => rfl
    | some equal => rw [equal]

theorem Mirrors.of_self {related : α → α → Prop} {computation : Traced ε α}
    (holds : ∀ value, computation.outcome = some value → related value value) :
    Mirrors allowed exempt related computation computation := by
  intro _
  cases outcome : computation.outcome with
  | none => exact Or.inr .none
  | some value => exact Or.inr (.some (holds value outcome))

theorem Mirrors.refl (computation : Traced ε α) :
    Mirrors allowed exempt Eq computation computation := .of_self fun _ _ => rfl

/-! ## Loops -/

/-- Two passes do the same, to related states or with related results. -/
def PassRel (again : σ → σ' → Prop) (leave : ρ → ρ' → Prop) : Pass σ ρ → Pass σ' ρ' → Prop
  | .again next, .again next' => again next next'
  | .leave result, .leave result' => leave result result'
  | _, _ => False

/-- The pass does not go round again. -/
def Ends (outcome : Option (Pass σ ρ)) : Prop := ∀ next, outcome ≠ some (.again next)

variable {pass : σ → Traced ε (Pass σ ρ)} {pass' : σ' → Traced ε (Pass σ' ρ')}
  {again : σ → σ' → Prop} {leave : ρ → ρ' → Prop}

theorem Mirrors.loop (keeps : ∀ state state', again state state' →
      Mirrors allowed Never (PassRel again leave) (pass state) (pass' state'))
    (fuel : Nat) {state : σ} {state' : σ'} (holds : again state state') :
    Mirrors allowed Never leave (Traced.loop pass fuel state) (Traced.loop pass' fuel state') := by
  induction fuel generalizing state state' with
  | zero => exact Mirrors.undefined
  | succ fuel ih =>
      refine (keeps state state' holds).bind_exact ?_
      rintro (result | next) (result' | next') same
      · exact Mirrors.pure same
      · exact same.elim
      · exact same.elim
      · exact ih same

/-- The events of a pass that goes round again are those that the loop starts with. -/
theorem events_loop_of_again {state next : σ} (repeated : (pass state).outcome = some (.again next))
    (fuel : Nat) :
    (Traced.loop pass (fuel + 1) state).events =
      (pass state).events ++ (Traced.loop pass fuel next).events := by
  simp [Traced.loop, Bind.bind, Traced.bind, repeated]

/-- Where passes get that go round again, mirrored ones get as well. -/
theorem Reaches.mirrored (keeps : ∀ state state', again state state' →
      Mirrors allowed Ends (PassRel again leave) (pass state) (pass' state'))
    {state last : σ} (reaches : Reaches pass state last)
    (recorded : ∀ fuel, ∀ event ∈ (Traced.loop pass fuel state).events, allowed event)
    {state' : σ'} (holds : again state state') :
    ∃ last', Reaches pass' state' last' ∧ again last last' := by
  induction reaches generalizing state' with
  | refl => exact ⟨state', .refl _, holds⟩
  | step repeated _ ih =>
      have here := recorded 1
      have behind := fun fuel => recorded (fuel + 1)
      simp only [events_loop_of_again repeated] at here behind
      rcases keeps _ state' holds fun event member => here event (List.mem_append_left _ member)
        with ended | same
      · exact absurd repeated (ended _)
      · rw [repeated] at same
        cases followed : (pass' state').outcome with
        | none =>
            rw [followed] at same
            cases same
        | some passed =>
            rw [followed] at same
            obtain ⟨kept⟩ := same
            cases passed with
            | leave result => exact kept.elim
            | again next' =>
                obtain ⟨last', later, related⟩ :=
                  ih (fun fuel event member => behind fuel event (List.mem_append_right _ member))
                    kept
                exact ⟨last', .step followed later, related⟩

/-- What is left behind where a mirrored loop got is what the loop leaves. -/
theorem Reaches.returns_iff {state last : σ} (reaches : Reaches pass state last) {result : ρ} :
    Returns pass state result ↔ Returns pass last result := by
  induction reaches with
  | refl => rfl
  | step repeated _ ih => rw [returns_iff_of_again repeated, ih]

end Traced
