import Mathlib.Data.List.Perm.Basic
import Mathlib.Logic.Function.Basic
import Mathlib.Tactic.TypeStar

/-!
# Pollers

An engine registers handles and timers with a poller, which calls it back when a handle it polls is
ready or when a timer fires.  A timer fires once and is forgotten then.  A call that the poller does
not provide for (an unknown handle, a timer that is not set, a negative time) is put on record.
-/

/-- What an engine has registered with a poller. -/
structure Poller (η ι : Type*) where
  /-- The handles that were added. -/
  handles : η → Bool
  /-- Those that are polled for input. -/
  pollin : η → Bool
  /-- Those that are polled for output. -/
  pollout : η → Bool
  /-- The timers that are set. -/
  timers : List ι
  /-- Whether there was a call that is not provided for. -/
  misused : Bool

namespace Poller

variable {η ι : Type*} [DecidableEq η] [DecidableEq ι]

/-- Nothing is registered. -/
def fresh : Poller η ι := ⟨fun _ => false, fun _ => false, fun _ => false, [], false⟩

variable (poller : Poller η ι)

/-- A call is provided for under a condition. -/
def require (condition : Bool) : Poller η ι :=
  { poller with misused := poller.misused || !condition }

/-- Add a handle, which is not there yet. -/
def addHandle (handle : η) : Poller η ι :=
  { poller.require (!poller.handles handle) with
    handles := Function.update poller.handles handle true }

/-- Remove a handle, and poll it no longer. -/
def removeHandle (handle : η) : Poller η ι :=
  { poller.require (poller.handles handle) with
    handles := Function.update poller.handles handle false
    pollin := Function.update poller.pollin handle false
    pollout := Function.update poller.pollout handle false }

/-- Poll a handle for input. -/
def setPollin (handle : η) : Poller η ι :=
  { poller.require (poller.handles handle) with
    pollin := Function.update poller.pollin handle true }

/-- Poll a handle for output. -/
def setPollout (handle : η) : Poller η ι :=
  { poller.require (poller.handles handle) with
    pollout := Function.update poller.pollout handle true }

/-- Poll a handle for output no longer. -/
def resetPollout (handle : η) : Poller η ι :=
  { poller.require (poller.handles handle) with
    pollout := Function.update poller.pollout handle false }

/-- Set a timer. -/
def addTimer (timeout : Int) (timer : ι) : Poller η ι :=
  { poller.require (decide (0 ≤ timeout)) with timers := poller.timers ++ [timer] }

/-- Cancel a timer, which is set. -/
def cancelTimer (timer : ι) : Poller η ι :=
  { poller.require (decide (timer ∈ poller.timers)) with timers := poller.timers.erase timer }

/-- A timer fires. -/
def fire (timer : ι) : Poller η ι := { poller with timers := poller.timers.erase timer }

/-- Nothing is registered, and there was no call that is not provided for. -/
structure Released : Prop where
  handles : ∀ handle, poller.handles handle = false
  pollin : ∀ handle, poller.pollin handle = false
  pollout : ∀ handle, poller.pollout handle = false
  timers : poller.timers = []
  proper : poller.misused = false

/-- Every handle was added, these are polled, these timers are set, and there was no call that is
not provided for. -/
structure Registered (pollin pollout : η → Bool) (timers : List ι) : Prop where
  handles : ∀ handle, poller.handles handle = true
  pollin : poller.pollin = pollin
  pollout : poller.pollout = pollout
  timers : poller.timers.Perm timers
  proper : poller.misused = false

variable {poller} {pollin pollout : η → Bool} {timers : List ι}

omit [DecidableEq η] [DecidableEq ι] in
theorem released_fresh : (fresh : Poller η ι).Released :=
  ⟨fun _ => rfl, fun _ => rfl, fun _ => rfl, rfl, rfl⟩

omit [DecidableEq η] [DecidableEq ι] in
theorem Registered.congr (registered : poller.Registered pollin pollout timers) {other : List ι}
    (same : timers.Perm other) : poller.Registered pollin pollout other :=
  { registered with timers := registered.timers.trans same }

omit [DecidableEq η] [DecidableEq ι] in
theorem misused_require {condition : Bool} (proper : poller.misused = false)
    (holds : condition = true) : (poller.require condition).misused = false := by
  rw [require, proper, holds]
  rfl

/-! ## Handles -/

section

omit [DecidableEq ι]

namespace Registered

theorem setPollin (registered : poller.Registered pollin pollout timers) (handle : η) :
    (poller.setPollin handle).Registered (Function.update pollin handle true) pollout timers where
  handles := registered.handles
  pollin := by simp [Poller.setPollin, registered.pollin]
  pollout := registered.pollout
  timers := registered.timers
  proper := misused_require registered.proper (registered.handles handle)

theorem setPollout (registered : poller.Registered pollin pollout timers) (handle : η) :
    (poller.setPollout handle).Registered pollin (Function.update pollout handle true) timers where
  handles := registered.handles
  pollin := registered.pollin
  pollout := by simp [Poller.setPollout, registered.pollout]
  timers := registered.timers
  proper := misused_require registered.proper (registered.handles handle)

theorem resetPollout (registered : poller.Registered pollin pollout timers) (handle : η) :
    (poller.resetPollout handle).Registered pollin (Function.update pollout handle false)
      timers where
  handles := registered.handles
  pollin := registered.pollin
  pollout := by simp [Poller.resetPollout, registered.pollout]
  timers := registered.timers
  proper := misused_require registered.proper (registered.handles handle)

end Registered

theorem handles_addHandles (added : List η) (handle : η) :
    (added.foldl addHandle poller).handles handle =
      (decide (handle ∈ added) || poller.handles handle) := by
  induction added generalizing poller with
  | nil => simp
  | cons first added ih =>
      rw [List.foldl_cons, ih, addHandle]
      by_cases same : handle = first <;> simp [same]

/-- To add handles that are not there leaves the rest alone. -/
theorem addHandles_proper {added : List η} (distinct : added.Nodup)
    (absent : ∀ handle ∈ added, poller.handles handle = false) :
    (added.foldl addHandle poller).pollin = poller.pollin ∧
      (added.foldl addHandle poller).pollout = poller.pollout ∧
      (added.foldl addHandle poller).timers = poller.timers ∧
      (added.foldl addHandle poller).misused = poller.misused := by
  induction added generalizing poller with
  | nil => exact ⟨rfl, rfl, rfl, rfl⟩
  | cons first added ih =>
      obtain ⟨new, distinct⟩ := List.nodup_cons.mp distinct
      have here := absent first (List.mem_cons_self ..)
      have absent' : ∀ handle ∈ added, (poller.addHandle first).handles handle = false := by
        intro handle member
        have differ : handle ≠ first := by
          rintro rfl
          exact new member
        have same : (poller.addHandle first).handles handle = poller.handles handle :=
          Function.update_of_ne differ ..
        rw [same, absent handle (List.mem_cons_of_mem _ member)]
      obtain ⟨ins, outs, set, proper⟩ := ih distinct absent'
      refine ⟨ins, outs, set, proper.trans ?_⟩
      simp [addHandle, require, here]

/-- An engine that has added all its handles is registered. -/
theorem Released.addHandles (released : poller.Released) (added : List η)
    (distinct : added.Nodup) (all : ∀ handle, handle ∈ added) :
    (added.foldl addHandle poller).Registered (fun _ => false) (fun _ => false) [] := by
  obtain ⟨ins, outs, set, proper⟩ :=
    addHandles_proper distinct fun handle _ => released.handles handle
  refine ⟨fun handle => ?_, ?_, ?_, ?_, proper.trans released.proper⟩
  · rw [handles_addHandles, decide_eq_true (all handle), Bool.true_or]
  · rw [ins]
    exact funext released.pollin
  · rw [outs]
    exact funext released.pollout
  · rw [set, released.timers]

/-- A handle that was removed is neither there nor polled. -/
theorem removeHandles (removed : List η) (handle : η) :
    (removed.foldl removeHandle poller).handles handle =
        (!decide (handle ∈ removed) && poller.handles handle) ∧
      (removed.foldl removeHandle poller).pollin handle =
        (!decide (handle ∈ removed) && poller.pollin handle) ∧
      (removed.foldl removeHandle poller).pollout handle =
        (!decide (handle ∈ removed) && poller.pollout handle) := by
  induction removed generalizing poller with
  | nil => simp
  | cons first removed ih =>
      rw [List.foldl_cons]
      obtain ⟨there, ins, outs⟩ := @ih (poller.removeHandle first)
      rw [there, ins, outs, removeHandle]
      by_cases same : handle = first <;> simp [same]

/-- To remove handles that are there is provided for. -/
theorem removeHandles_proper {removed : List η} (distinct : removed.Nodup)
    (there : ∀ handle ∈ removed, poller.handles handle = true) :
    (removed.foldl removeHandle poller).misused = poller.misused ∧
      (removed.foldl removeHandle poller).timers = poller.timers := by
  induction removed generalizing poller with
  | nil => exact ⟨rfl, rfl⟩
  | cons first removed ih =>
      obtain ⟨other, distinct⟩ := List.nodup_cons.mp distinct
      have here := there first (List.mem_cons_self ..)
      have there' : ∀ handle ∈ removed, (poller.removeHandle first).handles handle = true := by
        intro handle member
        have differ : handle ≠ first := by
          rintro rfl
          exact other member
        have same : (poller.removeHandle first).handles handle = poller.handles handle :=
          Function.update_of_ne differ ..
        rw [same, there handle (List.mem_cons_of_mem _ member)]
      rw [List.foldl_cons, (ih distinct there').1, (ih distinct there').2]
      simp [removeHandle, require, here]

/-- An engine that has removed all its handles, and has no timer set, is released. -/
theorem Registered.removeHandles (registered : poller.Registered pollin pollout [])
    {removed : List η} (distinct : removed.Nodup) (all : ∀ handle, handle ∈ removed) :
    (removed.foldl removeHandle poller).Released := by
  obtain ⟨proper, set⟩ := removeHandles_proper distinct fun handle _ => registered.handles handle
  refine ⟨fun handle => ?_, fun handle => ?_, fun handle => ?_, ?_, proper.trans registered.proper⟩
  · simp [(Poller.removeHandles removed handle).1, all handle]
  · simp [(Poller.removeHandles removed handle).2.1, all handle]
  · simp [(Poller.removeHandles removed handle).2.2, all handle]
  · rw [set]
    exact registered.timers.eq_nil

end

/-! ## Timers -/

namespace Registered

omit [DecidableEq η]

omit [DecidableEq ι] in
theorem addTimer (registered : poller.Registered pollin pollout timers) {timeout : Int}
    (later : 0 ≤ timeout) (timer : ι) :
    (poller.addTimer timeout timer).Registered pollin pollout (timer :: timers) where
  handles := registered.handles
  pollin := registered.pollin
  pollout := registered.pollout
  timers := List.perm_append_comm.trans (registered.timers.cons timer)
  proper := misused_require registered.proper (decide_eq_true later)

theorem fire {timer : ι} (registered : poller.Registered pollin pollout (timer :: timers)) :
    (poller.fire timer).Registered pollin pollout timers where
  handles := registered.handles
  pollin := registered.pollin
  pollout := registered.pollout
  timers := (registered.timers.erase timer).trans (by simp)
  proper := registered.proper

theorem cancelTimer {timer : ι} (registered : poller.Registered pollin pollout (timer :: timers)) :
    (poller.cancelTimer timer).Registered pollin pollout timers :=
  { registered.fire with
    proper := misused_require registered.proper
      (decide_eq_true (registered.timers.mem_iff.mpr (List.mem_cons_self ..))) }

end Registered

end Poller
