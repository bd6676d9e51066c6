import Mathlib.Data.List.Basic
import Mathlib.Tactic.TypeStar

/-!
# Asynchronous operations and timers

An operation that was started completes once, at some later time.  A later call may supersede it,
and only then may it complete as aborted.  A timer is waited on in the same way: a wait ends when
the timer expires or when it is cancelled, and its handler runs some time after that.
-/

namespace Asynchronous

variable {α : Type*}

/-! ## Operations -/

/-- The operations of one kind that were started and have not completed. -/
structure Operations (α : Type*) where
  /-- Those that nothing has superseded. -/
  pending : List α
  /-- The others. -/
  superseded : List α

namespace Operations

/-- No operation. -/
def none : Operations α := ⟨[], []⟩

variable (operations : Operations α)

/-- All of them. -/
def outstanding : List α := operations.pending ++ operations.superseded

/-- Those that are superseded, or those that are not. -/
def those (superseded : Bool) : List α :=
  if superseded then operations.superseded else operations.pending

/-- Start one. -/
def start (operation : α) : Operations α :=
  { operations with pending := operations.pending ++ [operation] }

/-- Supersede them all. -/
def supersede : Operations α := ⟨[], operations.superseded ++ operations.pending⟩

/-- One of them completes. -/
def complete [DecidableEq α] (superseded : Bool) (operation : α) : Operations α :=
  if superseded then { operations with superseded := operations.superseded.erase operation }
  else { operations with pending := operations.pending.erase operation }

theorem start_pending_ne_nil (operation : α) : (operations.start operation).pending ≠ [] := by
  simp [start]

theorem outstanding_start (operation : α) :
    (operations.start operation).outstanding.Perm (operation :: operations.outstanding) := by
  rw [outstanding, start, List.append_assoc]
  exact List.perm_middle

theorem outstanding_supersede : operations.supersede.outstanding.Perm operations.outstanding := by
  rw [outstanding, supersede, List.nil_append]
  exact List.perm_append_comm

/-- An operation that completes is no longer outstanding. -/
theorem outstanding_complete [DecidableEq α] {superseded : Bool} {operation : α}
    (started : operation ∈ operations.those superseded) :
    (operations.complete superseded operation).outstanding.Perm
      (operations.outstanding.erase operation) := by
  cases superseded with
  | false => exact List.Perm.of_eq (List.erase_append_left _ started).symm
  | true =>
      have moved : (operations.superseded ++ operations.pending).erase operation =
          operations.superseded.erase operation ++ operations.pending :=
        List.erase_append_left _ started
      refine List.Perm.trans List.perm_append_comm ?_
      rw [complete, if_pos rfl, ← moved]
      exact List.perm_append_comm.erase operation

end Operations

/-! ## Timers -/

/-- The waits on one timer whose handlers have not run. -/
structure Timer where
  /-- Those that go on. -/
  waiting : Nat
  /-- Those that an expiry has ended; their handlers are queued. -/
  expired : Nat
  /-- Those that a cancel has ended. -/
  aborted : Nat
  deriving DecidableEq, Repr

namespace Timer

/-- A timer that nothing waits on. -/
def fresh : Timer := ⟨0, 0, 0⟩

variable (timer : Timer)

/-- Wait. -/
def wait : Timer := { timer with waiting := timer.waiting + 1 }

/-- End every wait that goes on; a handler that is queued already is not recalled. -/
def cancel : Timer := ⟨0, timer.expired, timer.aborted + timer.waiting⟩

/-- The timer expires. -/
def expire : Timer := ⟨0, timer.expired + timer.waiting, timer.aborted⟩

/-- A queued handler runs; `aborted` says how its wait ended. -/
def handled (aborted : Bool) : Timer :=
  if aborted then { timer with aborted := timer.aborted - 1 }
  else { timer with expired := timer.expired - 1 }

/-- A wait goes on, or its expiry is queued. -/
def Armed : Prop := 0 < timer.waiting ∨ 0 < timer.expired

theorem armed_wait : timer.wait.Armed := Or.inl (Nat.succ_pos _)

/-- An expiry leaves a timer armed. -/
theorem Armed.expire {timer : Timer} (armed : timer.Armed) : timer.expire.Armed := by
  rcases armed with waiting | expired
  · exact Or.inr (Nat.add_pos_right _ waiting)
  · exact Or.inr (Nat.add_pos_left expired _)

/-- So does the handler of a wait that was cancelled. -/
theorem Armed.handled {timer : Timer} (armed : timer.Armed) : (timer.handled true).Armed := armed

end Timer

end Asynchronous
