import Mathlib.Data.Nat.Notation
import Mathlib.Tactic.TypeStar

/-!
# Loops that may not end

A `while` loop is a pass function: each pass either leaves with a result or goes round again.
Running it with fuel is executable, and the fuel-free notions `Leaves` and `Diverges` are what
the loop does, independently of any bound.
-/

namespace ProgramLoop

variable {σ ρ : Type*}

/-- One pass of a loop. -/
inductive Pass (σ ρ : Type*) where
  | leave (result : ρ)
  | again (state : σ)
  deriving DecidableEq

/-- At most `fuel` passes of a loop. -/
def run (pass : σ → Pass σ ρ) : Nat → σ → Option ρ
  | 0, _ => none
  | fuel + 1, state =>
      match pass state with
      | .leave result => some result
      | .again next => run pass fuel next

/-- The loop leaves with `result` after finitely many passes. -/
def Leaves (pass : σ → Pass σ ρ) (state : σ) (result : ρ) : Prop :=
  ∃ fuel, run pass fuel state = some result

/-- No number of passes leaves the loop. -/
def Diverges (pass : σ → Pass σ ρ) (state : σ) : Prop :=
  ∀ fuel, run pass fuel state = none

variable {pass : σ → Pass σ ρ}

theorem run_succ_of_leave {state : σ} {result : ρ} (left : pass state = .leave result)
    (fuel : Nat) : run pass (fuel + 1) state = some result := by
  simp [run, left]

theorem run_succ_of_again {state next : σ} (again : pass state = .again next) (fuel : Nat) :
    run pass (fuel + 1) state = run pass fuel next := by
  simp [run, again]

theorem run_add {state : σ} {result : ρ} {fuel : Nat}
    (left : run pass fuel state = some result) (spare : Nat) :
    run pass (fuel + spare) state = some result := by
  induction fuel generalizing state with
  | zero => simp [run] at left
  | succ fuel ih =>
      rw [Nat.succ_add]
      cases passed : pass state with
      | leave exit =>
          rw [run_succ_of_leave passed] at left ⊢
          exact left
      | again next =>
          rw [run_succ_of_again passed] at left ⊢
          exact ih left

theorem Leaves.unique {state : σ} {first second : ρ} (left₁ : Leaves pass state first)
    (left₂ : Leaves pass state second) : first = second := by
  obtain ⟨fuel₁, run₁⟩ := left₁
  obtain ⟨fuel₂, run₂⟩ := left₂
  have more₁ := run_add run₁ fuel₂
  have more₂ := run_add run₂ fuel₁
  rw [Nat.add_comm] at more₂
  exact Option.some.inj (more₁.symm.trans more₂)

theorem leaves_of_leave {state : σ} {result : ρ} (left : pass state = .leave result) :
    Leaves pass state result :=
  ⟨1, run_succ_of_leave left 0⟩

/-- A pass that goes round again does not change what the loop leaves with. -/
theorem leaves_iff_of_again {state next : σ} (again : pass state = .again next) (result : ρ) :
    Leaves pass state result ↔ Leaves pass next result := by
  constructor
  · rintro ⟨fuel, ran⟩
    cases fuel with
    | zero => simp [run] at ran
    | succ fuel =>
        rw [run_succ_of_again again] at ran
        exact ⟨fuel, ran⟩
  · rintro ⟨fuel, ran⟩
    exact ⟨fuel + 1, by rw [run_succ_of_again again, ran]⟩

theorem leaves_of_again {state next : σ} {result : ρ} (again : pass state = .again next)
    (left : Leaves pass next result) : Leaves pass state result :=
  (leaves_iff_of_again again result).mpr left

theorem Diverges.not_leaves {state : σ} (forever : Diverges pass state) (result : ρ) :
    ¬Leaves pass state result := by
  rintro ⟨fuel, ran⟩
  simp [forever fuel] at ran

/-- A set of states closed under passes, with no way out, is never left. -/
theorem Diverges.of_invariant (inside : σ → Prop)
    (closed : ∀ state, inside state → ∃ next, pass state = .again next ∧ inside next)
    {state : σ} (start : inside state) : Diverges pass state := by
  intro fuel
  induction fuel generalizing state with
  | zero => rfl
  | succ fuel ih =>
      obtain ⟨next, again, nextInside⟩ := closed state start
      rw [run_succ_of_again again]
      exact ih nextInside

/-- The invariant rule: what every pass keeps holds of the result. -/
theorem Leaves.preserves (inside : σ → Prop) (outcome : ρ → Prop)
    (kept : ∀ state next, inside state → pass state = .again next → inside next)
    (established : ∀ state result, inside state → pass state = .leave result → outcome result)
    {state : σ} {result : ρ} (start : inside state) (left : Leaves pass state result) :
    outcome result := by
  obtain ⟨fuel, ran⟩ := left
  induction fuel generalizing state with
  | zero => simp [run] at ran
  | succ fuel ih =>
      cases passed : pass state with
      | leave exit =>
          rw [run_succ_of_leave passed] at ran
          exact Option.some.inj ran ▸ established state exit start passed
      | again next =>
          rw [run_succ_of_again passed] at ran
          exact ih (kept state next start passed) ran

/-- The variant rule: a loop whose passes shrink a natural number leaves. -/
theorem exists_leaves_of_variant (inside : σ → Prop) (variant : σ → Nat)
    (kept : ∀ state next, inside state → pass state = .again next →
      inside next ∧ variant next < variant state)
    {state : σ} (start : inside state) : ∃ result, Leaves pass state result := by
  induction size : variant state using Nat.strongRecOn generalizing state with
  | _ bound ih =>
      cases passed : pass state with
      | leave exit => exact ⟨exit, leaves_of_leave passed⟩
      | again next =>
          obtain ⟨nextInside, smaller⟩ := kept state next start passed
          obtain ⟨result, left⟩ := ih (variant next) (size ▸ smaller) nextInside rfl
          exact ⟨result, leaves_of_again passed left⟩

/-- A pass goes round inside the invariant or leaves with the outcome. -/
def Pass.Keeps (inside : σ → Prop) (outcome : ρ → Prop) : Pass σ ρ → Prop
  | .leave result => outcome result
  | .again state => inside state

/-- The states a loop goes through, from `start` on. -/
inductive Reaches (pass : σ → Pass σ ρ) (start : σ) : σ → Prop
  | start : Reaches pass start start
  | again {state next : σ} : Reaches pass start state → pass state = .again next →
      Reaches pass start next

/-- What holds at the start and is kept by every pass holds wherever the loop gets. -/
theorem Reaches.keeps {inside : σ → Prop} {outcome : ρ → Prop}
    (kept : ∀ state, inside state → (pass state).Keeps inside outcome)
    {start state : σ} (initial : inside start) (reached : Reaches pass start state) :
    inside state := by
  induction reached with
  | start => exact initial
  | again _ passed ih =>
      have here := kept _ ih
      rwa [passed] at here

theorem Leaves.keeps {inside : σ → Prop} {outcome : ρ → Prop}
    (kept : ∀ state, inside state → (pass state).Keeps inside outcome)
    {state : σ} {result : ρ} (initial : inside state) (left : Leaves pass state result) :
    outcome result := by
  refine left.preserves inside outcome ?_ ?_ initial
  · intro state next here passed
    have kept := kept state here
    rwa [passed] at kept
  · intro state result here passed
    have kept := kept state here
    rwa [passed] at kept

/-! ## Loops seen through functions -/

/-- A pass as it is seen through functions of the state and of the result. -/
def Pass.map {τ μ : Type*} (view : σ → τ) (result : ρ → μ) : Pass σ ρ → Pass τ μ
  | .leave left => .leave (result left)
  | .again next => .again (view next)

/-- A loop whose passes are seen as the passes of another is seen as the other. -/
theorem run_map {τ μ : Type*} {other : τ → Pass τ μ} {view : σ → τ} {result : ρ → μ}
    (seen : ∀ state, other (view state) = (pass state).map view result) (fuel : Nat) (state : σ) :
    run other fuel (view state) = (run pass fuel state).map result := by
  induction fuel generalizing state with
  | zero => rfl
  | succ fuel ih =>
      rw [run, seen, run]
      cases pass state with
      | leave left => rfl
      | again next => exact ih next

end ProgramLoop
