import Mathlib.Data.List.Basic
import Mathlib.Data.List.Induction
import Mathlib.Logic.Function.Basic

/-!
# Values stored at the start of a buffer

A buffer is a function of the index.  What single stores leave is described by the list of the
values that now stand at its start; behind them the buffer is as it was.
-/

namespace Overlay

variable {α : Type*}

/-- The buffer with the values at its start. -/
def overlay (values : List α) (buffer : Nat → α) : Nat → α :=
  fun index => values[index]?.getD (buffer index)

/-- Stores at given places, one after the other. -/
def storeAll (stores : List (Nat × α)) (buffer : Nat → α) : Nat → α :=
  stores.foldl (fun buffer store => Function.update buffer store.1 store.2) buffer

variable {values : List α} {buffer : Nat → α} {index : Nat}

@[simp] theorem overlay_nil : overlay [] buffer = buffer := rfl

theorem overlay_of_lt (inside : index < values.length) :
    overlay values buffer index = values[index] := by
  simp [overlay, inside]

theorem overlay_of_ge (behind : values.length ≤ index) :
    overlay values buffer index = buffer index := by
  simp [overlay, behind]

/-- A store right behind the values makes them one more. -/
theorem update_overlay_length (value : α) (behind : index = values.length) :
    Function.update (overlay values buffer) index value = overlay (values ++ [value]) buffer := by
  subst behind
  funext place
  rcases Nat.lt_trichotomy place values.length with before | rfl | after
  · rw [Function.update_of_ne (Nat.ne_of_lt before), overlay_of_lt before,
      overlay_of_lt (by simp; omega), List.getElem_append_left]
  · rw [Function.update_self, overlay_of_lt (by simp)]
    simp
  · rw [Function.update_of_ne (Nat.ne_of_gt after), overlay_of_ge (Nat.le_of_lt after),
      overlay_of_ge (by rw [List.length_append]; exact after)]

/-- A store that comes before the values are put in front of it is still there if it is right behind
them. -/
theorem overlay_update_length (value : α) :
    overlay values (Function.update buffer values.length value) =
      overlay (values ++ [value]) buffer := by
  rw [← update_overlay_length value rfl]
  funext place
  by_cases here : place = values.length
  · rw [here, overlay_of_ge (Nat.le_refl _), Function.update_self, Function.update_self]
  · rw [Function.update_of_ne here]
    simp [overlay, Function.update_of_ne here]

theorem update_overlay_modify (change : α → α) (inside : index < values.length) :
    Function.update (overlay values buffer) index (change (overlay values buffer index)) =
      overlay (values.modify index change) buffer := by
  funext place
  by_cases here : place = index
  · subst here
    rw [Function.update_self, overlay_of_lt inside, overlay_of_lt (by simpa using inside),
      List.getElem_modify_eq]
  · rw [Function.update_of_ne here]
    simp [overlay, Ne.symm here]

/-- Values that are stored from the first to the last. -/
theorem storeAll_zipIdx (values : List α) (buffer : Nat → α) :
    storeAll (values.zipIdx.map Prod.swap) buffer = overlay values buffer := by
  induction values using List.reverseRecOn with
  | nil => rfl
  | append_singleton values last ih =>
      rw [List.zipIdx_append, List.map_append, storeAll, List.foldl_append]
      change storeAll [(0 + values.length, last)]
        (storeAll (values.zipIdx.map Prod.swap) buffer) = _
      rw [ih, Nat.zero_add, ← update_overlay_length last rfl]
      rfl

/-- Values that are stored from the last to the first. -/
theorem storeAll_reverse (values : List α) (buffer : Nat → α) :
    storeAll (values.zipIdx.map Prod.swap).reverse buffer = overlay values buffer := by
  induction values using List.reverseRecOn generalizing buffer with
  | nil => rfl
  | append_singleton values last ih =>
      rw [List.zipIdx_append, List.map_append, List.reverse_append, ← overlay_update_length, ← ih]
      simp [storeAll]

/-- The same where some of the last values are skipped. -/
theorem storeAll_drop_reverse (values : List α) (skipped : Nat) (buffer : Nat → α) :
    storeAll ((values.zipIdx.map Prod.swap).reverse.drop skipped) buffer =
      overlay (values.take (values.length - skipped)) buffer := by
  have front : ∀ count, values.zipIdx.take count = (values.take count).zipIdx := by
    intro count
    apply List.ext_getElem?
    intro index
    rw [List.getElem?_take, List.getElem?_zipIdx, List.getElem?_zipIdx, List.getElem?_take]
    split <;> rfl
  rw [List.drop_reverse, List.length_map, List.length_zipIdx, ← List.map_take, front,
    storeAll_reverse]

end Overlay
