import Mathlib.Data.List.Basic

/-!
# Pieces of a list

Some pieces of a list are contiguous, disjoint and in the order of the list exactly when the list
can be cut into gaps and pieces by turns.
-/

variable {α : Type*}

/-- The pieces lie in `stream` one behind the other, with gaps between them. -/
inductive Excerpts : List α → List (List α) → Prop
  | nil (stream : List α) : Excerpts stream []
  | cons (gap piece : List α) {rest : List α} {pieces : List (List α)} : Excerpts rest pieces →
      Excerpts (gap ++ (piece ++ rest)) (piece :: pieces)

namespace Excerpts

variable {stream : List α} {pieces : List (List α)}

/-- Pieces of a list are pieces of every longer one. -/
theorem append (excerpts : Excerpts stream pieces) (more : List α) :
    Excerpts (stream ++ more) pieces := by
  induction excerpts with
  | nil stream => exact nil _
  | cons gap piece _ ih =>
      rw [List.append_assoc, List.append_assoc]
      exact cons gap piece ih

theorem concat (excerpts : Excerpts stream pieces) (piece : List α) :
    Excerpts (stream ++ piece) (pieces ++ [piece]) := by
  induction excerpts with
  | nil stream =>
      have last := cons stream piece (nil [])
      rwa [List.append_nil] at last
  | cons gap first _ ih =>
      rw [List.append_assoc, List.append_assoc]
      exact cons gap first ih

end Excerpts
