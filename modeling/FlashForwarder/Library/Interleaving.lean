import Mathlib.Logic.Function.Basic
import Mathlib.Data.List.Basic

/-!
# Interleaved machines

A family of machines, one for each key, is fed from a single list of inputs.  What the machine of a
key answers is what it would answer if it were fed its own inputs alone.
-/

namespace Interleaving

variable {κ σ ι ο α : Type*}

/-- The answers of one machine to successive inputs, if all of its steps are defined. -/
def answers (step : σ → ι → Option (σ × ο)) : σ → List ι → Option (List ο)
  | _, [] => some []
  | state, input :: inputs =>
      (step state input).bind fun next =>
        (answers step next.1 inputs).map (next.2 :: ·)

section

variable [DecidableEq κ]

/-- The answers of a family of machines to inputs that are tagged with keys. -/
def familyAnswers (step : κ → σ → ι → Option (σ × ο)) :
    (κ → σ) → List (κ × ι) → Option (List ο)
  | _, [] => some []
  | states, (key, input) :: inputs =>
      (step key (states key) input).bind fun next =>
        (familyAnswers step (Function.update states key next.1) inputs).map (next.2 :: ·)

/-- The entries of a list that are tagged with a key. -/
def restrict (key : κ) (tagged : List (κ × α)) : List α :=
  (tagged.filter fun entry => entry.1 = key).map Prod.snd

@[simp] theorem restrict_nil (key : κ) : restrict key ([] : List (κ × α)) = [] := rfl

theorem restrict_cons (key : κ) (entry : κ × α) (tagged : List (κ × α)) :
    restrict key (entry :: tagged) =
      if entry.1 = key then entry.2 :: restrict key tagged else restrict key tagged := by
  by_cases same : entry.1 = key <;> simp [restrict, same]

/-- The answers to a key's inputs are those of its own machine. -/
theorem answers_restrict {step : κ → σ → ι → Option (σ × ο)} {states : κ → σ}
    {inputs : List (κ × ι)} {given : List ο}
    (run : familyAnswers step states inputs = some given) (key : κ) :
    answers (step key) (states key) (restrict key inputs) =
      some (restrict key ((inputs.map Prod.fst).zip given)) := by
  induction inputs generalizing states given with
  | nil => simp [answers]
  | cons entry inputs ih =>
      obtain ⟨tag, input⟩ := entry
      simp only [familyAnswers, Option.bind_eq_some_iff, Option.map_eq_some_iff] at run
      obtain ⟨⟨next, answer⟩, stepped, given, rest, rfl⟩ := run
      have later := ih rest
      rw [restrict_cons, List.map_cons, List.zip_cons_cons, restrict_cons]
      by_cases same : tag = key
      · subst same
        rw [Function.update_self] at later
        simp [answers, stepped, later]
      · rw [Function.update_of_ne (Ne.symm same)] at later
        simp [same, later]

/-- Two families whose machines for a key are the same give the same answers to that key's inputs,
whatever the other machines are fed. -/
theorem restrict_eq_restrict {step step' : κ → σ → ι → Option (σ × ο)} {states states' : κ → σ}
    {inputs inputs' : List (κ × ι)} {given given' : List ο} {key : κ}
    (run : familyAnswers step states inputs = some given)
    (run' : familyAnswers step' states' inputs' = some given')
    (sameStep : step key = step' key) (sameStart : states key = states' key)
    (sameInputs : restrict key inputs = restrict key inputs') :
    restrict key ((inputs.map Prod.fst).zip given) =
      restrict key ((inputs'.map Prod.fst).zip given') := by
  have left := answers_restrict run key
  have right := answers_restrict run' key
  rw [sameStep, sameStart, sameInputs, right, Option.some_inj] at left
  exact left.symm

end

end Interleaving
