import FlashForwarder.Allocator.PoolRefinement

/-!
# Allocated messages are big enough

Whatever the users do, `Allocate` returns, with a message of at least the capacity asked for, and
the messages of each free list have its index and its capacity.
-/

namespace FlashForwarder

open LinkedList Transition

namespace MessageAllocator

variable {allocator next : MessageAllocator} {queued : SpscQueue.History Addr}
  {label : Option Label} {fresh : Addr}

/-! ## What it returns -/

/-- A message that `Allocate` returns holds the capacity asked for; it is of no list if that is too
big, and of one otherwise. -/
def LargeEnough : Label → Prop
  | .allocated capacity _ message => 0 ≤ capacity → capacity ≤ message.capacity ∧
      (2 ^ 22 < capacity → message.index = -1) ∧
      (capacity ≤ 2 ^ 22 → 0 ≤ message.index ∧ message.index < slots)
  | .released _ | .recycling _ _ | .recycled | .moved _ | .consumed | .set _ _ => True

theorem Pool.Sized.largeEnough {pool after : Pool} {label : Label} (sized : pool.Sized)
    (stepped : pool.Step label after) : LargeEnough label := by
  cases stepped with
  | oversized big unused =>
      intro _
      exact ⟨Int.le_refl _, fun _ => rfl, fun small => absurd big (Int.not_lt.mpr small)⟩
  | made small listed empty unused made =>
      intro nonneg
      rw [made]
      refine ⟨(indexOf_fits nonneg small).2, fun big => absurd big (Int.not_lt.mpr small),
        fun _ => ⟨Int.natCast_nonneg _, Int.ofNat_lt.mpr listed⟩⟩
  | @reused capacity head message small listed first found =>
      intro nonneg
      obtain ⟨message', found', index⟩ := sized.lists _ listed head first
      obtain rfl := Option.some_inj.mp (found.symm.trans found')
      have within : 0 ≤ message.index ∧ message.index < slots := by omega
      refine ⟨?_, fun big => absurd big (Int.not_lt.mpr small), fun _ => within⟩
      rcases sized.fits head message found with oversized | ⟨-, -, fits⟩
      · omega
      · rw [fits, index, Int.toNat_natCast]
        exact (indexOf_fits nonneg small).2
  | deleted found index => trivial
  | released found nonneg small => trivial
  | dropped found index => trivial
  | recycling found nonneg => trivial
  | recycled => trivial
  | moved first found nonneg small => trivial
  | consumed all => trivial
  | set found => trivial

/-- The capacity of the message that `Allocate` returns. -/
def capacityFor (capacity : Int) : Int :=
  if capacity > 2 ^ allocateStop then capacity else 2 ^ (allocateStart + indexOf capacity + 1)

theorem le_capacityFor {capacity : Int} (nonneg : 0 ≤ capacity) :
    capacity ≤ capacityFor capacity := by
  rw [capacityFor]
  split
  · exact Int.le_refl _
  · exact (indexOf_fits nonneg (by omega)).2

theorem capacityFor_lt {capacity : Int} (nonneg : 0 ≤ capacity) (small : capacity < 2147483648) :
    capacityFor capacity < 2147483648 := by
  rw [capacityFor]
  split
  · exact small
  · have listed := (indexOf_fits nonneg (by omega)).1
    rw [slots, allocateStop, allocateStart] at listed
    have wide : 2 ^ (allocateStart + indexOf capacity + 1) ≤ 2 ^ 23 :=
      Nat.pow_le_pow_right (by decide) (by rw [allocateStart]; omega)
    have cast : ((2 ^ (allocateStart + indexOf capacity + 1) : Nat) : Int) =
        2 ^ (allocateStart + indexOf capacity + 1) := by
      norm_cast
    omega

/-- What an allocated message holds is determined by what was asked for. -/
def AsFor : Label → Prop
  | .allocated capacity _ message => 0 ≤ capacity → message.capacity = capacityFor capacity
  | .released _ | .recycling _ _ | .recycled | .moved _ | .consumed | .set _ _ => True

theorem Pool.Sized.asFor {pool after : Pool} {label : Label} (sized : pool.Sized)
    (stepped : pool.Step label after) : AsFor label := by
  cases stepped with
  | oversized big unused => exact fun _ => (if_pos big).symm
  | made small listed empty unused made =>
      intro _
      rw [made, capacityFor, if_neg (Int.not_lt.mpr small)]
      rfl
  | @reused capacity head message small listed first found =>
      intro nonneg
      obtain ⟨message', found', index⟩ := sized.lists _ listed head first
      obtain rfl := Option.some_inj.mp (found.symm.trans found')
      rw [capacityFor, if_neg (Int.not_lt.mpr small)]
      rcases sized.fits head message found with oversized | ⟨-, -, fits⟩
      · omega
      · rw [fits, index, Int.toNat_natCast]
  | deleted found index => trivial
  | released found nonneg small => trivial
  | dropped found index => trivial
  | recycling found nonneg => trivial
  | recycled => trivial
  | moved first found nonneg small => trivial
  | consumed all => trivial
  | set found => trivial

/-! ## Allocate returns -/

/-- How many steps the owner is from the next message in its list, at most. -/
def stepsLeft (allocator : MessageAllocator) : Nat :=
  match allocator.owner with
  | .idle => 0
  | .consuming _ =>
      match allocator.idleQueue.reader with
      | .idle => 5
      | .checking _ => 4
      | .taking => 3
      | .recycling _ => 0
  | .received _ _ =>
      match allocator.idleQueue.reader with
      | .idle => 1
      | _ => 2
  | .resuming _ => 0

/-- The capacity that the owner is asked for. -/
def wanted (allocator : MessageAllocator) : Option Int :=
  match allocator.owner with
  | .idle => none
  | .consuming capacity | .received _ capacity | .resuming capacity => some capacity

/-- What a step of the owner brings: `Allocate` returns, or it is nearer to that. -/
def Nearer (allocator next : MessageAllocator) : Option Label → Prop
  | none | some .consumed =>
      next.wanted = allocator.wanted ∧ next.stepsLeft < allocator.stepsLeft
  | some (.moved _) => next.wanted = allocator.wanted ∧ next.stepsLeft < allocator.stepsLeft + 5
  | some (.allocated capacity _ _) => allocator.wanted = some capacity ∧ next.owner = .idle
  | some (.released _) | some (.recycling _ _) | some .recycled | some (.set _ _) => False

theorem Follows.nearer_of_consuming (follows : allocator.Follows queued) {capacity : Int}
    (consuming : allocator.owner = .consuming capacity)
    (done : allocator.ownerStep fresh = some (label, next)) : Nearer allocator next label := by
  have within := follows.owner
  rw [OwnerWithin, consuming] at within
  have enabled : allocator.idleQueue.Enabled (allocator.idleQueue.orReader .read) :=
    SpscQueue.enabled_orReader id
  obtain ⟨read, queue, result, -⟩ := follows.queue_continues enabled
  rw [ownerStep, consuming] at done
  dsimp only at done
  rw [result] at done
  rcases within.2 with idle | checking | taking
  · rw [SpscQueue.orReader, idle] at result
    obtain ⟨-, ⟨rfl, inside⟩ | ⟨impossible, -⟩⟩ := SpscQueue.checkRead_cases idle result
    · obtain ⟨rfl, rfl⟩ := Prod.mk.inj (Option.some_inj.mp done)
      refine ⟨by simp [wanted, consuming], ?_⟩
      rcases inside with inside | ⟨-, inside⟩ <;> simp [stepsLeft, consuming, idle, inside]
    · exact absurd impossible (by simp)
  · rw [SpscQueue.orReader, checking, SpscQueue.exec, SpscQueue.readerStep, checking] at result
    obtain ⟨-, ⟨rfl, -, taking⟩ | ⟨-, rfl, -⟩ | ⟨impossible, -⟩⟩ :=
      SpscQueue.prefetch_cases result
    · obtain ⟨rfl, rfl⟩ := Prod.mk.inj (Option.some_inj.mp done)
      exact ⟨by simp [wanted, consuming], by simp [stepsLeft, consuming, checking, taking]⟩
    · obtain ⟨rfl, rfl⟩ := Prod.mk.inj (Option.some_inj.mp done)
      exact ⟨by simp [wanted, consuming], by simp [stepsLeft, consuming, checking]⟩
    · exact absurd impossible (by simp)
  · rw [SpscQueue.orReader, taking, SpscQueue.exec, SpscQueue.readerStep, taking] at result
    obtain ⟨value, -, rest⟩ := Option.bind_eq_some_iff.mp result
    obtain ⟨⟨popped, emptied⟩, -, rest⟩ := Option.bind_eq_some_iff.mp rest
    obtain ⟨rfl, -⟩ := Prod.mk.inj (Option.some_inj.mp rest)
    obtain ⟨rfl, rfl⟩ := Prod.mk.inj (Option.some_inj.mp done)
    refine ⟨by simp [wanted, consuming], ?_⟩
    simp only [stepsLeft, consuming, taking]
    split <;> omega

theorem Follows.nearer_of_received (follows : allocator.Follows queued) {msg : Addr}
    {capacity : Int} (received : allocator.owner = .received msg capacity)
    (done : allocator.ownerStep fresh = some (label, next)) : Nearer allocator next label := by
  have within := follows.owner
  rw [OwnerWithin, received] at within
  rw [ownerStep, received] at done
  dsimp only at done
  rcases within.2 with idle | ⟨emptied, recycling⟩
  · rw [idle] at done
    obtain ⟨message, -, rest⟩ := Option.bind_eq_some_iff.mp done
    obtain ⟨after, put, rest⟩ := Option.bind_eq_some_iff.mp rest
    obtain ⟨rfl, rfl⟩ := Prod.mk.inj (Option.some_inj.mp rest)
    obtain ⟨-, rfl⟩ := putBack_cases put
    exact ⟨by simp [wanted, received], by simp [stepsLeft, received, store, idle]⟩
  · have enabled : allocator.idleQueue.Enabled .reader := by
      rw [SpscQueue.Enabled, recycling]
      simp
    obtain ⟨label', queue, result, -⟩ := follows.queue_continues enabled
    obtain ⟨-, rfl, idle⟩ := SpscQueue.recycle_cases recycling result
    rw [recycling, result] at done
    obtain ⟨rfl, rfl⟩ := Prod.mk.inj (Option.some_inj.mp done)
    exact ⟨by simp [wanted, received], by simp [stepsLeft, received, recycling, idle]⟩

theorem nearer_of_pick {capacity : Int} (wanted : allocator.wanted = some capacity)
    (done : allocator.pick capacity fresh = some (label, next)) : Nearer allocator next label := by
  rcases pick_cases done with ⟨_, _, _, _, rfl, rfl⟩ | ⟨_, _, _, rfl, rfl⟩
  · exact ⟨wanted, rfl⟩
  · exact ⟨wanted, rfl⟩

theorem Follows.nearer (follows : allocator.Follows queued)
    (done : allocator.ownerStep fresh = some (label, next)) : Nearer allocator next label := by
  cases owner : allocator.owner with
  | idle =>
      rw [ownerStep, owner] at done
      exact absurd done (by simp)
  | consuming capacity => exact follows.nearer_of_consuming owner done
  | received msg capacity => exact follows.nearer_of_received owner done
  | resuming capacity =>
      rw [ownerStep, owner] at done
      exact nearer_of_pick (by rw [wanted, owner]) done

theorem exists_putBack {message : Message} (fits : Pool.Fits message) (nonneg : 0 ≤ message.index)
    (allocator : MessageAllocator) (msg : Addr) :
    ∃ after, allocator.putBack msg message = some after := by
  rcases fits with big | ⟨-, small, -⟩
  · omega
  · exact ⟨_, if_pos ⟨nonneg, small⟩⟩

theorem exists_pick (sized : (allocator.pool queued).Sized) {capacity : Int}
    (small : indexOf capacity < slots) (fresh : Addr) :
    ∃ msg message next, allocator.pick capacity fresh =
      some (some (.allocated capacity msg message), next) := by
  rw [pick]
  dsimp only
  cases first : allocator.freeLists (indexOf capacity) with
  | some head =>
      obtain ⟨message, found, -⟩ := sized.lists _ small head first
      have here : allocator.messages head = some message := found
      exact ⟨_, _, _, by dsimp only; rw [here]; rfl⟩
  | none => exact ⟨_, _, _, rfl⟩

theorem Follows.exists_ownerStep (follows : allocator.Follows queued)
    (sized : (allocator.pool queued).Sized) (busy : allocator.owner ≠ .idle) (fresh : Addr) :
    ∃ label next, allocator.ownerStep fresh = some (label, next) := by
  have within := follows.owner
  cases owner : allocator.owner with
  | idle => exact absurd owner busy
  | consuming capacity =>
      have enabled : allocator.idleQueue.Enabled (allocator.idleQueue.orReader .read) :=
        SpscQueue.enabled_orReader id
      obtain ⟨read, queue, result, -⟩ := follows.queue_continues enabled
      rw [ownerStep, owner]
      dsimp only
      rw [result]
      rw [OwnerWithin, owner] at within
      obtain ⟨-, ⟨rfl, -⟩ | ⟨value, rfl, -⟩⟩ := SpscQueue.read_cases within.2 result
      · exact ⟨_, _, rfl⟩
      · cases value <;> exact ⟨_, _, rfl⟩
  | received msg capacity =>
      rw [OwnerWithin, owner] at within
      have member : msg ∈ (allocator.pool queued).idle := by
        simp [pool, ownerHand, owner]
      obtain ⟨index, nonneg, message, found, rfl⟩ := sized.idle msg member
      have here : allocator.messages msg = some message := found
      obtain ⟨after, put⟩ :=
        exists_putBack (sized.fits msg message found) nonneg allocator msg
      rw [ownerStep, owner]
      dsimp only
      rcases within.2 with idle | ⟨emptied, recycling⟩
      · rw [idle, here]
        exact ⟨_, _, by simp only [Option.bind_eq_bind, Option.bind_some, put]; rfl⟩
      · have enabled : allocator.idleQueue.Enabled .reader := by
          rw [SpscQueue.Enabled, recycling]
          simp
        obtain ⟨label', queue, result, -⟩ := follows.queue_continues enabled
        exact ⟨_, _, by rw [recycling, result]; rfl⟩
  | resuming capacity =>
      rw [OwnerWithin, owner] at within
      rw [ownerStep, owner]
      obtain ⟨msg, message, next, picked⟩ := exists_pick sized within.1.2 fresh
      exact ⟨_, _, picked⟩

/-- One more step of the owner, when a new message would be at `fresh`. -/
def OwnerStep (fresh : Addr) (allocator : MessageAllocator) (label : Option Label)
    (next : MessageAllocator) : Prop :=
  allocator.Enabled (.owner fresh) ∧ allocator.exec (.owner fresh) = some (label, next)

/-- Moving a message makes no message, and there is one idle message less. -/
theorem Pool.Step.of_moved {pool after : Pool} {msg : Addr} (stepped : pool.Step (.moved msg) after)
    (unused : pool.messages fresh = none) :
    after.messages fresh = none ∧ pool.idle.length = after.idle.length + 1 := by
  cases stepped with
  | moved first found nonneg small =>
      have different : fresh ≠ msg := by
        rintro rfl
        exact absurd (unused.symm.trans found) (by simp)
      exact ⟨(Function.update_of_ne different _ _).trans unused, by rw [first, List.length_cons]⟩

/-- If the owner goes on alone, `Allocate` returns. -/
theorem Follows.returns {start : MessageAllocator} {trace : List Label}
    (run : Run (OwnerStep fresh) start trace allocator) (follows : allocator.Follows queued)
    (sized : (allocator.pool queued).Sized) {capacity : Int}
    (wanted : allocator.wanted = some capacity) (unused : allocator.messages fresh = none) :
    ∃ trace msg message final,
      Run (OwnerStep fresh) start (trace ++ [.allocated capacity msg message]) final ∧
        final.owner = .idle ∧ LargeEnough (.allocated capacity msg message) := by
  induction left : 5 * (allocator.pool queued).idle.length + allocator.stepsLeft
    using Nat.strongRecOn generalizing allocator queued trace with
  | ind bound ih =>
      have busy : allocator.owner ≠ .idle := by
        intro idle
        rw [MessageAllocator.wanted, idle] at wanted
        exact absurd wanted (by simp)
      obtain ⟨label, next, done⟩ := follows.exists_ownerStep sized busy fresh
      have stepped : OwnerStep fresh allocator label next := ⟨⟨busy, unused⟩, done⟩
      have nearer := follows.nearer done
      obtain ⟨queued', follows', moves⟩ := follows.step ⟨.owner fresh, stepped.1, stepped.2⟩
      cases label with
      | none =>
          obtain ⟨same, fewer⟩ := nearer
          refine ih _ ?_ (run.silent stepped) follows' (moves ▸ sized) (same.trans wanted) ?_ rfl
          · rw [moves]
            omega
          · exact (congrFun (congrArg Pool.messages moves) fresh).trans unused
      | some label =>
          have sized' := sized.step moves
          cases label with
          | allocated capacity' msg message =>
              obtain ⟨same, idle⟩ := nearer
              obtain rfl := Option.some_inj.mp (wanted.symm.trans same)
              exact ⟨trace, msg, message, next, run.visible stepped, idle, sized.largeEnough moves⟩
          | moved msg =>
              obtain ⟨same, fewer⟩ := nearer
              obtain ⟨unused', shorter⟩ := moves.of_moved unused
              exact ih _ (by omega) (run.visible stepped) follows' sized' (same.trans wanted)
                unused' rfl
          | consumed =>
              obtain ⟨same, fewer⟩ := nearer
              have kept : next.pool queued' = allocator.pool queued := by
                generalize next.pool queued' = after at moves
                cases moves
                rfl
              refine ih _ ?_ (run.visible stepped) follows' sized' (same.trans wanted) ?_ rfl
              · rw [kept]
                omega
              · exact (congrFun (congrArg Pool.messages kept) fresh).trans unused
          | released msg => exact nearer.elim
          | recycling msg message => exact nearer.elim
          | recycled => exact nearer.elim
          | set msg setting => exact nearer.elim

/-- `Allocate(capacity)` returns a message that is large enough if the owner goes on alone, when a
new message would be at `fresh`. -/
def Returns (allocator : MessageAllocator) (capacity : Int) (fresh : Addr) : Prop :=
  ∃ label next, allocator.exec (.allocate capacity fresh) = some (label, next) ∧
    ((∃ msg message, label = some (.allocated capacity msg message) ∧
        LargeEnough (.allocated capacity msg message)) ∨
      ∃ trace msg message final,
        Run (OwnerStep fresh) next (trace ++ [.allocated capacity msg message]) final ∧
          final.owner = .idle ∧ LargeEnough (.allocated capacity msg message))

theorem Follows.allocate_returns (follows : allocator.Follows queued)
    (sized : (allocator.pool queued).Sized) {capacity : Int} (nonneg : 0 ≤ capacity)
    (enabled : allocator.Enabled (.allocate capacity fresh)) :
    allocator.Returns capacity fresh := by
  obtain ⟨idle, unused, -⟩ := id enabled
  have largeEnough : ∀ {msg message next}, allocator.exec (.allocate capacity fresh) =
      some (some (.allocated capacity msg message), next) →
      LargeEnough (.allocated capacity msg message) := by
    intro msg message next done
    obtain ⟨queued', -, moves⟩ := follows.step ⟨_, enabled, done⟩
    exact sized.largeEnough moves
  by_cases big : capacity > 2 ^ allocateStop
  · have done : allocator.exec (.allocate capacity fresh) = some (_, _) := if_pos big
    exact ⟨_, _, done, .inl ⟨_, _, rfl, largeEnough done⟩⟩
  obtain ⟨listed, -⟩ := indexOf_fits nonneg (Int.not_lt.mp big)
  by_cases empty : allocator.freeLists (indexOf capacity) = none ∧ allocator.enableRecycle
  · have done : allocator.exec (.allocate capacity fresh) =
        some (none, { allocator with owner := .consuming capacity }) := by
      rw [exec, MessageAllocator.allocate, if_neg big, if_pos listed, if_pos empty]
    obtain ⟨queued', follows', moves⟩ := follows.step ⟨_, enabled, done⟩
    refine ⟨_, _, done, .inr ?_⟩
    exact Follows.returns .nil follows' (moves ▸ sized) rfl unused
  · obtain ⟨msg, message, next, picked⟩ := exists_pick sized listed fresh
    have done : allocator.exec (.allocate capacity fresh) =
        some (some (.allocated capacity msg message), next) := by
      rw [exec, MessageAllocator.allocate, if_neg big, if_pos listed, if_neg empty, picked]
    exact ⟨_, next, done, .inl ⟨msg, message, rfl, largeEnough done⟩⟩

/-! ## After every run -/

/-- The allocator is a pool in which every message fits its index. -/
def FollowsSized (allocator : MessageAllocator) : Prop :=
  ∃ queued, allocator.Follows queued ∧ (allocator.pool queued).Sized

theorem Pool.sized_empty : (⟨fun _ => none, fun _ => none, [], none⟩ : Pool).Sized := by
  constructor <;> simp

theorem sized_simulation : Simulation Step (fun (_ : Unit) (_ : Label) => True)
    (fun _ label => LargeEnough label ∧ AsFor label) (fun _ _ => ())
    (fun allocator _ => FollowsSized allocator) where
  silent := by
    rintro allocator next _ ⟨queued, follows, sized⟩ stepped
    obtain ⟨queued', follows', moves⟩ := follows.step stepped
    exact ⟨queued', follows', moves ▸ sized⟩
  visible := by
    rintro allocator next _ label ⟨queued, follows, sized⟩ stepped -
    obtain ⟨queued', follows', moves⟩ := follows.step stepped
    exact ⟨⟨sized.largeEnough moves, sized.asFor moves⟩, queued', follows', sized.step moves⟩

theorem Initial.followsSized (initial : Initial allocator) : FollowsSized allocator := by
  obtain ⟨follows, empty⟩ := initial.follows
  exact ⟨{}, follows, empty ▸ Pool.sized_empty⟩

theorem FollowsSized.run {start : MessageAllocator} {trace : List Label}
    (begins : FollowsSized start) (run : Run Step start trace allocator) :
    FollowsSized allocator ∧ Throughout (fun (_ : Unit) label => LargeEnough label ∧ AsFor label)
      (fun _ _ => ()) () trace := by
  have assumed : Throughout (fun (_ : Unit) (_ : Label) => True) (fun _ _ => ()) () trace :=
    fun _ _ _ _ => trivial
  exact sized_simulation.follows begins run assumed

/-- After every run, `Allocate` returns, every message that it has returned was large enough, and
the messages of each free list have its index and its capacity; the index that is computed is that
of the capacity's logarithm. -/
theorem allocated_large_enough {start : MessageAllocator} {trace : List Label}
    (initial : Initial start) (run : Run Step start trace allocator) :
    (∀ (capacity : Int) (msg : Addr) (message : Message),
      .allocated capacity msg message ∈ trace → 0 ≤ capacity →
        capacity ≤ message.capacity ∧ (2 ^ 22 < capacity → message.index = -1) ∧
          (capacity ≤ 2 ^ 22 → 0 ≤ message.index ∧ message.index < slots)) ∧
    (∀ capacity fresh, 0 ≤ capacity → allocator.Enabled (.allocate capacity fresh) →
      allocator.Returns capacity fresh) ∧
    (∀ index < slots, ∀ msg,
      Met Message.next allocator.messages (allocator.freeLists index) msg →
      ∃ message, allocator.messages msg = some message ∧ message.index = index ∧
        message.capacity = 2 ^ (index + 6)) ∧
    ∀ capacity : Int, 1 ≤ capacity → capacity ≤ 2 ^ 22 →
      (indexOf capacity : Int) = max 0 (capacity.toNat.log2 - 5) := by
  obtain ⟨⟨queued, follows, sized⟩, allowed⟩ := initial.followsSized.run run
  refine ⟨fun capacity msg message member => ?_, fun capacity fresh nonneg enabled => ?_, ?_, ?_⟩
  · obtain ⟨before, after, split⟩ := List.append_of_mem member
    exact (allowed before _ after split).1
  · exact follows.allocate_returns sized nonneg enabled
  · exact fun index small msg met => sized.of_met small met
  · intro capacity positive small
    exact indexOf_eq positive (by omega)

/-- A message is handed out, given a size, recycled, and handed out again from its list. -/
def handedOutAgain (size : Int32) : List Label :=
  [.consumed, .allocated 100 7 ⟨1, 128, 0, 0, 0, none⟩, .set 7 (.size size),
    .recycling 7 ⟨1, 128, size, 0, 0, none⟩, .recycled, .moved 7, .consumed,
    .allocated 100 7 ⟨1, 128, size, 0, 0, none⟩]

theorem run_handedOutAgain (size : Int32) :
    ∃ start allocator, Initial start ∧ Run Step start (handedOutAgain size) allocator := by
  have start : Run Step ((init true 0 1).get rfl) [] _ := Run.nil
  have first : Run Step _
      ([] ++ [Label.consumed] ++ [Label.allocated 100 7 ⟨1, 128, 0, 0, 0, none⟩]) _ :=
    (((start.silent ⟨.allocate 100 7, ⟨rfl, rfl, by decide, by decide⟩, rfl⟩).silent
      ⟨.owner 7, ⟨by simp, rfl⟩, rfl⟩).visible ⟨.owner 7, ⟨by simp, rfl⟩, rfl⟩).visible
        ⟨.owner 7, ⟨by simp, rfl⟩, rfl⟩
  have sized : Run Step _ (_ ++ [Label.set 7 (.size size)]) _ :=
    first.visible ⟨.set 7 (.size size), trivial, rfl⟩
  have called : Run Step _ (_ ++ [Label.recycling 7 ⟨1, 128, size, 0, 0, none⟩]) _ :=
    sized.visible ⟨.recycle 7, ⟨rfl, rfl⟩, rfl⟩
  have recycled : Run Step _ (_ ++ [Label.recycled]) _ :=
    (((called.silent ⟨.recycler 2, ⟨by simp, rfl⟩, rfl⟩).silent
      ⟨.recycler 2, ⟨by simp, rfl⟩, rfl⟩).silent ⟨.recycler 2, ⟨by simp, rfl⟩, rfl⟩).visible
        ⟨.recycler 2, ⟨by simp, rfl⟩, rfl⟩
  have moved : Run Step _ (_ ++ [Label.moved 7]) _ :=
    ((((recycled.silent ⟨.allocate 100 8, ⟨rfl, rfl, by decide, by decide⟩, rfl⟩).silent
      ⟨.owner 8, ⟨by simp, rfl⟩, rfl⟩).silent ⟨.owner 8, ⟨by simp, rfl⟩, rfl⟩).silent
        ⟨.owner 8, ⟨by simp, rfl⟩, rfl⟩).visible ⟨.owner 8, ⟨by simp, rfl⟩, rfl⟩
  have again : Run Step _
      (_ ++ [Label.consumed] ++ [Label.allocated 100 7 ⟨1, 128, size, 0, 0, none⟩]) _ :=
    ((moved.silent ⟨.owner 8, ⟨by simp, rfl⟩, rfl⟩).visible ⟨.owner 8, ⟨by simp, rfl⟩, rfl⟩).visible
      ⟨.owner 8, ⟨by simp, rfl⟩, rfl⟩
  exact ⟨_, _, ⟨true, 0, 1, by decide, rfl⟩, again⟩

theorem allocated_large_enough_once :
    ∃ start allocator, Initial start ∧ Run Step start (handedOutAgain 0) allocator ∧
      ∃ message : Message, .allocated 100 7 message ∈ (handedOutAgain 0).drop 6 ∧
        100 ≤ message.capacity ∧ 0 ≤ message.index := by
  obtain ⟨start, allocator, initial, run⟩ := run_handedOutAgain 0
  obtain ⟨large, -, small⟩ := (allocated_large_enough initial run).1 100 7
    ⟨1, 128, 0, 0, 0, none⟩ (by simp [handedOutAgain]) (by decide)
  exact ⟨start, allocator, initial, run, _, by simp [handedOutAgain], large,
    (small (by decide)).1⟩

end MessageAllocator

end FlashForwarder
