import FlashForwarder.Spsc.Queue

/-!
# What the calls on a queue say

The history of a queue is read off the labels of its run alone: what was written and not unwritten,
how far it was completed and flushed, what was returned, and whether the reader has gone to sleep.
It also says which label a queue may show next.
-/

namespace FlashForwarder

open Transition

namespace SpscQueue

variable {α : Type}

/-- What has happened to a queue. -/
structure History (α : Type) where
  /-- The values written and not unwritten. -/
  written : List α := []
  /-- How many of them the last `Write` with `incomplete` false has completed. -/
  completed : Nat := 0
  /-- How many of them were completed at the last `Flush`. -/
  flushed : Nat := 0
  /-- The values returned by `Read`. -/
  returned : List α := []
  /-- A `CheckRead` has failed, and there was no `Flush` with something to flush since. -/
  asleep : Bool := false

namespace History

/-- What a label adds. -/
def next (history : History α) : Label α → History α
  | .write value incomplete =>
      { history with
        written := history.written ++ [value]
        completed := if incomplete then history.completed else history.written.length + 1 }
  | .unwrite none => history
  | .unwrite (some _) => { history with written := history.written.dropLast }
  | .flush _ =>
      if history.flushed = history.completed then history
      else { history with flushed := history.completed, asleep := false }
  | .checkRead true => history
  | .checkRead false | .read none => { history with asleep := true }
  | .read (some value) => { history with returned := history.returned ++ [value] }

/-- Which label a queue may show next. -/
def Allows (history : History α) : Label α → Prop
  | .write _ _ => True
  | .unwrite none => history.completed = history.written.length
  | .unwrite (some value) =>
      history.completed < history.written.length ∧ history.written.getLast? = some value
  | .flush returned =>
      returned = false ↔ history.flushed ≠ history.completed ∧ history.asleep = true
  | .checkRead true => history.returned.length < history.flushed
  | .checkRead false | .read none => history.returned.length = history.flushed
  | .read (some value) =>
      history.returned.length < history.flushed ∧
        history.written[history.returned.length]? = some value

/-- Nothing is returned but what was flushed, nothing flushed but what was completed, and the reader
sleeps only when it has returned all that was flushed. -/
structure Orderly (history : History α) : Prop where
  returned : history.returned <+: history.written
  returned_le : history.returned.length ≤ history.flushed
  flushed_le : history.flushed ≤ history.completed
  completed_le : history.completed ≤ history.written.length
  asleep : history.asleep = true → history.returned.length = history.flushed

theorem Orderly.empty : Orderly ({} : History α) :=
  ⟨List.prefix_rfl, (Nat.le_refl _), (Nat.le_refl _), (Nat.le_refl _), fun _ => rfl⟩

/-- A label that is allowed keeps a history orderly. -/
theorem Orderly.next {history : History α} (orderly : Orderly history) {label : Label α}
    (allowed : history.Allows label) : Orderly (history.next label) := by
  obtain ⟨returned, returned_le, flushed_le, completed_le, asleep⟩ := orderly
  cases label with
  | write value incomplete =>
      refine ⟨returned.trans (List.prefix_append _ _), returned_le, ?_, ?_, asleep⟩
      · dsimp only [History.next]
        split <;> omega
      · dsimp only [History.next]
        rw [List.length_append, List.length_singleton]
        split <;> omega
  | unwrite value =>
      cases value with
      | none => exact ⟨returned, returned_le, flushed_le, completed_le, asleep⟩
      | some value =>
          have room : history.completed < history.written.length := allowed.1
          have within : history.returned.length ≤ history.written.length - 1 := by omega
          have kept : history.completed ≤ history.written.length - 1 := by omega
          refine ⟨?_, returned_le, flushed_le, ?_, asleep⟩
          · rw [History.next, List.dropLast_eq_take]
            exact List.prefix_take_iff.mpr ⟨returned, within⟩
          · rw [History.next, List.length_dropLast]
            exact kept
  | flush value =>
      dsimp only [History.next]
      split
      · exact ⟨returned, returned_le, flushed_le, completed_le, asleep⟩
      · exact ⟨returned, by dsimp only; omega, (Nat.le_refl _), completed_le, nofun⟩
  | checkRead value =>
      cases value with
      | true => exact ⟨returned, returned_le, flushed_le, completed_le, asleep⟩
      | false => exact ⟨returned, returned_le, flushed_le, completed_le, fun _ => allowed⟩
  | read value =>
      cases value with
      | none => exact ⟨returned, returned_le, flushed_le, completed_le, fun _ => allowed⟩
      | some value =>
          obtain ⟨ready, here⟩ := allowed
          refine ⟨?_, ?_, flushed_le, completed_le, fun slept => ?_⟩
          · obtain ⟨rest, split⟩ := returned
            rw [← split, List.getElem?_append_right (Nat.le_refl _), Nat.sub_self] at here
            obtain ⟨tail, rfl⟩ : ∃ tail, rest = value :: tail := by
              cases rest with
              | nil => simp at here
              | cons head tail => exact ⟨tail, by simpa using here⟩
            exact ⟨tail, by rw [History.next, ← split, List.append_assoc]; rfl⟩
          · rw [History.next, List.length_append, List.length_singleton]
            exact ready
          · have := asleep slept
            omega

end History

/-- The history of a trace. -/
def history (trace : List (Label α)) : History α := trace.foldl History.next {}

theorem history_concat (trace : List (Label α)) (label : Label α) :
    history (trace ++ [label]) = (history trace).next label := by
  rw [history, List.foldl_append]
  rfl

/-- What is flushed was completed before some `Flush`. -/
theorem flush_of_flushed {trace : List (Label α)} {i : Nat}
    (flushed : i < (history trace).flushed) :
    ∃ earlier returned later, trace = earlier ++ .flush returned :: later ∧
      i < (history earlier).completed := by
  induction trace using List.reverseRecOn with
  | nil => exact absurd flushed (Nat.not_lt_zero i)
  | append_singleton trace label ih =>
      have carried : i < (history trace).flushed → ∃ earlier returned later,
          trace ++ [label] = earlier ++ .flush returned :: later ∧
            i < (history earlier).completed := by
        intro before
        obtain ⟨earlier, returned, later, rfl, completed⟩ := ih before
        exact ⟨earlier, returned, later ++ [label], by simp, completed⟩
      rw [history_concat] at flushed
      cases label with
      | flush returned =>
          by_cases empty : (history trace).flushed = (history trace).completed
          · rw [History.next, if_pos empty] at flushed
            exact carried flushed
          · rw [History.next, if_neg empty] at flushed
            exact ⟨trace, returned, [], rfl, flushed⟩
      | write value incomplete => exact carried flushed
      | unwrite value => cases value <;> exact carried flushed
      | checkRead returned => cases returned <;> exact carried flushed
      | read value => cases value <;> exact carried flushed

/-! ## Histories of allowed labels -/

/-- Every label was one that the history before it allows. -/
def Allowed (trace : List (Label α)) : Prop := Throughout History.Allows History.next {} trace

theorem allowed_concat {trace : List (Label α)} {label : Label α} :
    Allowed (trace ++ [label]) ↔ Allowed trace ∧ (history trace).Allows label := throughout_concat

theorem Allowed.orderly {trace : List (Label α)} (allowed : Allowed trace) :
    (history trace).Orderly := by
  induction trace using List.reverseRecOn with
  | nil => exact History.Orderly.empty
  | append_singleton trace label ih =>
      obtain ⟨earlier, here⟩ := allowed_concat.mp allowed
      rw [history_concat]
      exact (ih earlier).next here

theorem Allowed.completed_kept {before later : List (Label α)}
    (allowed : Allowed (before ++ later)) :
    (history before).completed ≤ (history (before ++ later)).completed ∧
      (history (before ++ later)).written.take (history before).completed =
        (history before).written.take (history before).completed := by
  induction later using List.reverseRecOn with
  | nil => simp
  | append_singleton later label ih =>
      rw [← List.append_assoc] at allowed ⊢
      obtain ⟨earlier, here⟩ := allowed_concat.mp allowed
      obtain ⟨more, same⟩ := ih earlier
      have within := earlier.orderly.completed_le
      rw [history_concat]
      cases label with
      | write value incomplete =>
          dsimp only [History.next]
          rw [List.take_append_of_le_length (by omega), same]
          exact ⟨by split <;> omega, rfl⟩
      | unwrite value =>
          cases value with
          | none => exact ⟨more, same⟩
          | some value =>
              have room : (history (before ++ later)).completed <
                (history (before ++ later)).written.length := here.1
              dsimp only [History.next]
              rw [List.dropLast_eq_take, List.take_take, Nat.min_eq_left (by omega), same]
              exact ⟨more, rfl⟩
      | flush returned =>
          dsimp only [History.next]
          split <;> exact ⟨more, same⟩
      | checkRead returned => cases returned <;> exact ⟨more, same⟩
      | read value => cases value <;> exact ⟨more, same⟩

/-- The call was one of `Read`. -/
def isRead : Label α → Bool
  | .read _ => true
  | .write _ _ | .unwrite _ | .flush _ | .checkRead _ => false

/-- How often `Read` was called. -/
def reads (trace : List (Label α)) : Nat := trace.countP isRead

/-- What was flushed is returned when `Read` is called as often as there are values. -/
theorem Allowed.returned_of_reads {before later : List (Label α)}
    (allowed : Allowed (before ++ later)) :
    (history before).flushed ≤ (history (before ++ later)).flushed ∧
      min (history before).flushed ((history before).returned.length + reads later) ≤
        (history (before ++ later)).returned.length := by
  induction later using List.reverseRecOn with
  | nil =>
      rw [List.append_nil]
      exact ⟨Nat.le_refl _, Nat.min_le_right _ _⟩
  | append_singleton later label ih =>
      rw [← List.append_assoc] at allowed ⊢
      obtain ⟨earlier, here⟩ := allowed_concat.mp allowed
      obtain ⟨more, enough⟩ := ih earlier
      have within := earlier.orderly.flushed_le
      rw [history_concat, reads, List.countP_append]
      change _ ∧ min _ (_ + (reads later + _)) ≤ _
      cases label with
      | write value incomplete => exact ⟨more, enough⟩
      | unwrite value => cases value <;> exact ⟨more, enough⟩
      | flush returned =>
          dsimp only [History.next]
          split
          · exact ⟨more, enough⟩
          · exact ⟨by dsimp only; omega, enough⟩
      | checkRead returned => cases returned <;> exact ⟨more, enough⟩
      | read value =>
          cases value with
          | none =>
              have caught_up : (history (before ++ later)).returned.length =
                (history (before ++ later)).flushed := here
              refine ⟨more, ?_⟩
              dsimp only [History.next]
              omega
          | some value =>
              refine ⟨more, ?_⟩
              dsimp only [History.next]
              rw [List.length_append, List.length_singleton, List.countP_singleton]
              simp only [isRead, if_true]
              omega

/-- What was completed before a `Flush` is returned after it, each value once and in order, when
`Read` is called as often as there are values. -/
theorem Allowed.delivered {before polled : List (Label α)} {returned : Bool}
    (allowed : Allowed (before ++ .flush returned :: polled))
    (enough : (history before).completed ≤ (history before).returned.length + reads polled) :
    (history before).written.take (history before).completed <+:
      (history (before ++ .flush returned :: polled)).returned := by
  rw [List.append_cons] at allowed ⊢
  have flushed : (history (before ++ [.flush returned])).flushed = (history before).completed ∧
      (history (before ++ [.flush returned])).returned = (history before).returned := by
    rw [history_concat, History.next]
    split
    · rename_i empty
      exact ⟨empty, rfl⟩
    · exact ⟨rfl, rfl⟩
  have whole := allowed.orderly
  obtain ⟨-, kept⟩ := (List.append_assoc before _ polled ▸ allowed).completed_kept
  obtain ⟨-, many⟩ := allowed.returned_of_reads
  rw [flushed.1, flushed.2, Nat.min_eq_left enough] at many
  rw [← List.append_assoc] at kept
  rw [← kept]
  refine List.prefix_of_prefix_length_le (List.take_prefix _ _) whole.returned ?_
  rw [List.length_take]
  omega

end SpscQueue

end FlashForwarder
