import FlashForwarder.Allocator.Pool
import FlashForwarder.Spsc.PipeContract

/-!
# The allocator follows the pool

Whatever the two threads do, in any interleaving, the allocator is a pool: the messages on their way
to the free lists are the one in the owner's hand, those in the queue and the one in the other
thread's hand.
-/

namespace FlashForwarder

namespace MessageAllocator

variable (allocator : MessageAllocator) (queued : SpscQueue.History Addr)

/-- The message that `Read` gave and that is not in its list yet. -/
def ownerHand : List Addr :=
  match allocator.owner with
  | .received msg _ => [msg]
  | .idle | .consuming _ | .resuming _ => []

/-- The message that is not in the queue yet. -/
def recyclerHand : List Addr :=
  match allocator.recycler with
  | .writing msg => [msg]
  | .idle | .flushing _ => []

/-- The message whose `Recycle` has not returned. -/
def recycled : Option Addr :=
  match allocator.recycler with
  | .idle => none
  | .writing msg | .flushing msg => some msg

/-- A message is put back when its index has a list. -/
theorem putBack_cases {allocator after : MessageAllocator} {msg : Addr} {message : Message}
    (put : allocator.putBack msg message = some after) :
    (0 ≤ message.index ∧ message.index < slots) ∧
      after = { allocator.store msg
          (some { message with next := allocator.freeLists message.index.toNat }) with
        freeLists := Function.update allocator.freeLists message.index.toNat (some msg) } := by
  rw [putBack] at put
  split at put
  · rename_i range
    exact ⟨range, (Option.some_inj.mp put).symm⟩
  · exact absurd put (by simp)

/-- `Allocate` ends with the head of a list, if there is one, or with a new message. -/
theorem pick_cases {allocator next : MessageAllocator} {capacity : Int} {fresh : Addr}
    {label : Option Label} (done : allocator.pick capacity fresh = some (label, next)) :
    (∃ head message, allocator.freeLists (indexOf capacity) = some head ∧
      allocator.messages head = some message ∧
      label = some (.allocated capacity head { message with next := none }) ∧
      next = { allocator.store head (some { message with next := none }) with
        freeLists := Function.update allocator.freeLists (indexOf capacity) message.next
        owner := .idle }) ∨
    allocator.freeLists (indexOf capacity) = none ∧
      ∃ message : Message, message =
        Message.new.init (indexOf capacity) (2 ^ (allocateStart + indexOf capacity + 1)) ∧
      label = some (.allocated capacity fresh message) ∧
      next = { allocator.store fresh (some message) with owner := .idle } := by
  rw [pick] at done
  dsimp only at done
  cases first : allocator.freeLists (indexOf capacity) with
  | some head =>
      rw [first] at done
      obtain ⟨message, found, rest⟩ := Option.bind_eq_some_iff.mp done
      obtain ⟨rfl, rfl⟩ := Prod.mk.inj (Option.some_inj.mp rest)
      exact Or.inl ⟨head, message, rfl, found, rfl, rfl⟩
  | none =>
      rw [first] at done
      obtain ⟨rfl, rfl⟩ := Prod.mk.inj (Option.some_inj.mp done)
      exact Or.inr ⟨rfl, _, rfl, rfl, rfl⟩

/-- The pool that an allocator is. -/
def pool : Pool where
  messages := allocator.messages
  freeLists := allocator.freeLists
  idle := allocator.ownerHand ++
    (queued.written.drop queued.returned.length ++ allocator.recyclerHand)
  recycling := allocator.recycled

theorem pool_of_empty {allocator : MessageAllocator} (queued : SpscQueue.History Addr)
    (empty : allocator.ownerHand = []) :
    allocator.pool queued = ⟨allocator.messages, allocator.freeLists,
      queued.written.drop queued.returned.length ++ allocator.recyclerHand,
      allocator.recycled⟩ := by
  rw [pool, empty]
  rfl

theorem pool_congr {allocator next : MessageAllocator} (queued : SpscQueue.History Addr)
    (messages : next.messages = allocator.messages)
    (freeLists : next.freeLists = allocator.freeLists) (owner : next.owner = allocator.owner)
    (recycler : next.recycler = allocator.recycler) :
    next.pool queued = allocator.pool queued := by
  rw [pool, pool, ownerHand, ownerHand, recyclerHand, recyclerHand, MessageAllocator.recycled,
    MessageAllocator.recycled, messages, freeLists, owner, recycler]

/-- All but the last message in the queue is flushed; that one too, unless it is being flushed. -/
def Flushed : Prop :=
  match allocator.recycler with
  | .idle | .writing _ => queued.flushed = queued.written.length
  | .flushing msg => ∃ earlier, queued.written = earlier ++ [msg] ∧ queued.flushed = earlier.length

/-- The owner is in the call of the queue that its position says, and after a capacity that has a
list. -/
def OwnerWithin : Prop :=
  match allocator.owner with
  | .idle => allocator.idleQueue.reader = .idle
  | .consuming capacity => (capacity ≤ 2 ^ allocateStop ∧ indexOf capacity < slots) ∧
      (allocator.idleQueue.reader = .idle ∨ allocator.idleQueue.reader = .checking true ∨
        allocator.idleQueue.reader = .taking)
  | .received _ capacity => (capacity ≤ 2 ^ allocateStop ∧ indexOf capacity < slots) ∧
      (allocator.idleQueue.reader = .idle ∨
        ∃ emptied, allocator.idleQueue.reader = .recycling emptied)
  | .resuming capacity => (capacity ≤ 2 ^ allocateStop ∧ indexOf capacity < slots) ∧
      allocator.idleQueue.reader = .idle

/-- The other thread is in the call of the queue that its position says. -/
def RecyclerWithin : Prop :=
  match allocator.recycler with
  | .idle => allocator.idleQueue.writer = .idle
  | .writing msg =>
      allocator.idleQueue.writer = .idle ∨ allocator.idleQueue.writer = .pushing msg false
  | .flushing _ => allocator.idleQueue.writer = .idle ∨ allocator.idleQueue.writer = .flushing ∨
      allocator.idleQueue.writer = .storing

/-- An allocator follows the history of its queue. -/
structure Follows : Prop where
  queue : allocator.idleQueue.Refines idleGranularity queued
  completed : queued.completed = queued.written.length
  flushed : allocator.Flushed queued
  owner : allocator.OwnerWithin
  recycler : allocator.RecyclerWithin

/-- What a step does to the pool. -/
def Moves (label : Option Label) (next : MessageAllocator) : Prop :=
  ∃ queued', next.Follows queued' ∧
    match label with
    | none => next.pool queued' = allocator.pool queued
    | some label => (allocator.pool queued).Step label (next.pool queued')

namespace Follows

variable {allocator next : MessageAllocator} {queued : SpscQueue.History Addr}
  {label : Option Label} {fresh : Addr}

theorem queue_continues (follows : allocator.Follows queued) {action : FlashForwarder.Action Addr}
    (enabled : allocator.idleQueue.Enabled action) :
    SpscQueue.Continues idleGranularity queued
      (allocator.idleQueue.exec idleGranularity action) := by
  obtain ⟨addr, last, inside⟩ := follows.queue
  exact inside.continues (by decide) enabled

theorem orderly (follows : allocator.Follows queued) : queued.Orderly := by
  obtain ⟨addr, last, inside⟩ := follows.queue
  exact inside.orderly

/-- The head of a list, or a new message, is handed out. -/
theorem pick (follows : allocator.Follows queued) {capacity : Int}
    (sized : capacity ≤ 2 ^ allocateStop ∧ indexOf capacity < slots)
    (reader : allocator.idleQueue.reader = .idle) (empty : allocator.ownerHand = [])
    (unused : allocator.messages fresh = none)
    (done : allocator.pick capacity fresh = some (label, next)) :
    allocator.Moves queued label next := by
  rcases pick_cases done with ⟨head, message, first, found, rfl, rfl⟩ |
    ⟨first, message, made, rfl, rfl⟩
  · refine ⟨queued, ⟨follows.queue, follows.completed, follows.flushed, reader,
      follows.recycler⟩, ?_⟩
    rw [pool_of_empty queued empty]
    exact Pool.Step.reused sized.1 sized.2 first found
  · refine ⟨queued, ⟨follows.queue, follows.completed, follows.flushed, reader,
      follows.recycler⟩, ?_⟩
    rw [pool_of_empty queued empty]
    exact Pool.Step.made sized.1 sized.2 first unused made

theorem allocate (follows : allocator.Follows queued) {capacity : Int}
    (idle : allocator.owner = .idle) (unused : allocator.messages fresh = none)
    (done : allocator.allocate capacity fresh = some (label, next)) :
    allocator.Moves queued label next := by
  have reader : allocator.idleQueue.reader = .idle := by
    have within := follows.owner
    rwa [OwnerWithin, idle] at within
  have empty : allocator.ownerHand = [] := by rw [ownerHand, idle]
  rw [MessageAllocator.allocate] at done
  split at done
  · rename_i big
    obtain ⟨rfl, rfl⟩ := Prod.mk.inj (Option.some_inj.mp done)
    exact ⟨queued, ⟨follows.queue, follows.completed, follows.flushed, follows.owner,
      follows.recycler⟩, Pool.Step.oversized big unused⟩
  · rename_i small
    split at done
    · rename_i listed
      have sized : capacity ≤ 2 ^ allocateStop ∧ indexOf capacity < slots := ⟨by omega, listed⟩
      split at done
      · obtain ⟨rfl, rfl⟩ := Prod.mk.inj (Option.some_inj.mp done)
        refine ⟨queued, ⟨follows.queue, follows.completed, follows.flushed, ⟨sized, .inl reader⟩,
          follows.recycler⟩, ?_⟩
        rw [pool_of_empty queued empty]
        rfl
      · exact follows.pick sized reader empty unused done
    · exact absurd done (by simp)

theorem release (follows : allocator.Follows queued) {msg : Addr}
    (done : allocator.release msg = some (label, next)) :
    allocator.Moves queued label next := by
  obtain ⟨message, found, rest⟩ := Option.bind_eq_some_iff.mp done
  split at rest
  · rename_i index
    obtain ⟨rfl, rfl⟩ := Prod.mk.inj (Option.some_inj.mp rest)
    exact ⟨queued, ⟨follows.queue, follows.completed, follows.flushed, follows.owner,
      follows.recycler⟩, Pool.Step.deleted found index⟩
  · rename_i index
    obtain ⟨after, put, rest⟩ := Option.bind_eq_some_iff.mp rest
    obtain ⟨rfl, rfl⟩ := Prod.mk.inj (Option.some_inj.mp rest)
    obtain ⟨range, rfl⟩ := putBack_cases put
    exact ⟨queued, ⟨follows.queue, follows.completed, follows.flushed, follows.owner,
      follows.recycler⟩, Pool.Step.released found range.1 range.2⟩

theorem recycle (follows : allocator.Follows queued) {msg : Addr}
    (idle : allocator.recycler = .idle) (done : allocator.recycle msg = some (label, next)) :
    allocator.Moves queued label next := by
  obtain ⟨message, found, rest⟩ := Option.bind_eq_some_iff.mp done
  split at rest
  · rename_i index
    obtain ⟨rfl, rfl⟩ := Prod.mk.inj (Option.some_inj.mp rest)
    exact ⟨queued, ⟨follows.queue, follows.completed, follows.flushed, follows.owner,
      follows.recycler⟩, Pool.Step.dropped found index⟩
  · rename_i index
    obtain ⟨rfl, rfl⟩ := Prod.mk.inj (Option.some_inj.mp rest)
    have flushed := follows.flushed
    have within := follows.recycler
    rw [Flushed, idle] at flushed
    rw [RecyclerWithin, idle] at within
    refine ⟨queued, ⟨follows.queue, follows.completed, flushed, follows.owner, .inl within⟩, ?_⟩
    have recycling : (allocator.pool queued).Step (.recycling msg message) _ :=
      .recycling found (by omega)
    have hand : allocator.recyclerHand = [] := by rw [recyclerHand, idle]
    rw [show (allocator.pool queued).idle ++ [msg] = allocator.ownerHand ++
      (queued.written.drop queued.returned.length ++ [msg]) by simp [pool, hand]] at recycling
    exact recycling

theorem set (follows : allocator.Follows queued) {msg : Addr} {setting : Setting}
    (done : allocator.set msg setting = some (label, next)) :
    allocator.Moves queued label next := by
  obtain ⟨message, found, rest⟩ := Option.bind_eq_some_iff.mp done
  obtain ⟨rfl, rfl⟩ := Prod.mk.inj (Option.some_inj.mp rest)
  exact ⟨queued, ⟨follows.queue, follows.completed, follows.flushed, follows.owner,
    follows.recycler⟩, Pool.Step.set found⟩

theorem recyclerWithin_of (follows : allocator.Follows queued)
    (recycler : next.recycler = allocator.recycler)
    (writer : next.idleQueue.writer = allocator.idleQueue.writer) : next.RecyclerWithin := by
  have within := follows.recycler
  rwa [RecyclerWithin, ← recycler, ← writer] at within

theorem ownerWithin_of (follows : allocator.Follows queued) (owner : next.owner = allocator.owner)
    (reader : next.idleQueue.reader = allocator.idleQueue.reader) : next.OwnerWithin := by
  have within := follows.owner
  rwa [OwnerWithin, ← owner, ← reader] at within

/-- When all that is flushed was returned, what is idle is being recycled. -/
theorem idle_of_caught_up (follows : allocator.Follows queued)
    (caughtUp : queued.returned.length = queued.flushed) {msg : Addr}
    (member : msg ∈ queued.written.drop queued.returned.length ++ allocator.recyclerHand) :
    allocator.recycled = some msg := by
  have flushed := follows.flushed
  rw [caughtUp] at member
  rw [Flushed] at flushed
  rw [recyclerHand] at member
  rw [recycled]
  cases recycler : allocator.recycler with
  | idle => simp [recycler] at flushed member; simp [flushed] at member
  | writing other =>
      simp only [recycler] at flushed member
      rw [flushed, List.drop_length, List.nil_append, List.mem_singleton] at member
      rw [member]
  | flushing other =>
      simp only [recycler] at flushed member
      obtain ⟨earlier, written, flushed⟩ := flushed
      rw [flushed, written, List.drop_left, List.append_nil, List.mem_singleton] at member
      rw [member]

/-- One more step of a `Read` by `ConsumeIdleQueue`. -/
theorem consuming (follows : allocator.Follows queued) {capacity : Int}
    (consuming : allocator.owner = .consuming capacity)
    (done : allocator.ownerStep fresh = some (label, next)) :
    allocator.Moves queued label next := by
  have within := follows.owner
  rw [OwnerWithin, consuming] at within
  obtain ⟨sized, within⟩ := within
  have empty : allocator.ownerHand = [] := by rw [ownerHand, consuming]
  have enabled : allocator.idleQueue.Enabled (allocator.idleQueue.orReader .read) :=
    SpscQueue.enabled_orReader id
  obtain ⟨read, queue, result, continues⟩ := follows.queue_continues enabled
  rw [ownerStep, consuming] at done
  dsimp only at done
  rw [result] at done
  obtain ⟨writer, ⟨rfl, inside⟩ | ⟨value, rfl, after⟩⟩ := SpscQueue.read_cases within result
  · obtain ⟨rfl, rfl⟩ := Prod.mk.inj (Option.some_inj.mp done)
    refine ⟨queued, ⟨continues, follows.completed, follows.flushed, ⟨sized, .inr inside⟩,
      follows.recyclerWithin_of rfl writer⟩, ?_⟩
    exact pool_congr queued rfl rfl consuming.symm rfl
  · obtain ⟨allowed, refines⟩ := continues
    cases value with
    | none =>
        obtain ⟨rfl, rfl⟩ := Prod.mk.inj (Option.some_inj.mp done)
        have reader : queue.reader = .idle := by
          simpa using after
        refine ⟨queued.next (.read none), ⟨refines, follows.completed, follows.flushed,
          ⟨sized, reader⟩, follows.recyclerWithin_of rfl writer⟩, ?_⟩
        dsimp only
        rw [pool_of_empty queued empty]
        exact Pool.Step.consumed fun msg member => follows.idle_of_caught_up allowed member
    | some msg =>
        obtain ⟨rfl, rfl⟩ := Prod.mk.inj (Option.some_inj.mp done)
        obtain ⟨inside, here⟩ := List.getElem?_eq_some_iff.mp allowed.2
        refine ⟨queued.next (.read (some msg)), ⟨refines, follows.completed, follows.flushed,
          ⟨sized, after.imp_right And.right⟩, follows.recyclerWithin_of rfl writer⟩, ?_⟩
        dsimp only
        rw [pool_of_empty queued empty, List.drop_eq_getElem_cons inside, here]
        simp [pool, ownerHand, SpscQueue.History.next, recyclerHand, recycled]

/-- A message that `Read` gave goes into its list, when the `Read` has returned. -/
theorem received (follows : allocator.Follows queued) {msg : Addr} {capacity : Int}
    (received : allocator.owner = .received msg capacity)
    (done : allocator.ownerStep fresh = some (label, next)) :
    allocator.Moves queued label next := by
  have within := follows.owner
  rw [OwnerWithin, received] at within
  have hand : allocator.ownerHand = [msg] := by rw [ownerHand, received]
  rw [ownerStep, received] at done
  dsimp only at done
  obtain ⟨sized, idle | ⟨emptied, recycling⟩⟩ := within
  · rw [idle] at done
    obtain ⟨message, found, rest⟩ := Option.bind_eq_some_iff.mp done
    obtain ⟨after, put, rest⟩ := Option.bind_eq_some_iff.mp rest
    obtain ⟨rfl, rfl⟩ := Prod.mk.inj (Option.some_inj.mp rest)
    obtain ⟨range, rfl⟩ := putBack_cases put
    refine ⟨queued, ⟨follows.queue, follows.completed, follows.flushed, ⟨sized, .inl idle⟩,
      follows.recycler⟩, ?_⟩
    have first : (allocator.pool queued).idle =
        msg :: (queued.written.drop queued.returned.length ++ allocator.recyclerHand) := by
      rw [pool, hand]
      rfl
    exact Pool.Step.moved first found range.1 range.2
  · have enabled : allocator.idleQueue.Enabled .reader := by
      rw [SpscQueue.Enabled, recycling]
      simp
    obtain ⟨label', queue, result, continues⟩ := follows.queue_continues enabled
    obtain ⟨writer, rfl, idle⟩ := SpscQueue.recycle_cases recycling result
    rw [recycling, result] at done
    obtain ⟨rfl, rfl⟩ := Prod.mk.inj (Option.some_inj.mp done)
    refine ⟨queued, ⟨continues, follows.completed, follows.flushed, ⟨sized, .inl idle⟩,
      follows.recyclerWithin_of rfl writer⟩, ?_⟩
    exact pool_congr queued rfl rfl received.symm rfl

theorem writing (follows : allocator.Follows queued) {msg : Addr}
    (writing : allocator.recycler = .writing msg)
    (unallocated : allocator.idleQueue.queue.heap fresh = none)
    (done : allocator.recyclerStep fresh = some (label, next)) :
    allocator.Moves queued label next := by
  have within := follows.recycler
  have flushed := follows.flushed
  rw [RecyclerWithin, writing] at within
  rw [Flushed, writing] at flushed
  have enabled : allocator.idleQueue.Enabled
      (allocator.idleQueue.orWriter (.write msg false) fresh) :=
    SpscQueue.enabled_orWriter id unallocated
  obtain ⟨written, queue, result, continues⟩ := follows.queue_continues enabled
  rw [recyclerStep, writing] at done
  dsimp only at done
  rw [result] at done
  obtain ⟨reader, ⟨rfl, pushing⟩ | ⟨rfl, idle⟩⟩ := SpscQueue.write_cases within result
  · obtain ⟨rfl, rfl⟩ := Prod.mk.inj (Option.some_inj.mp done)
    refine ⟨queued, ⟨continues, follows.completed, flushed, follows.ownerWithin_of rfl reader,
      .inr pushing⟩, ?_⟩
    exact pool_congr queued rfl rfl rfl writing.symm
  · obtain ⟨-, refines⟩ := continues
    obtain ⟨rfl, rfl⟩ := Prod.mk.inj (Option.some_inj.mp done)
    refine ⟨queued.next (.write msg false), ⟨refines, by simp [SpscQueue.History.next],
      ⟨queued.written, rfl, flushed⟩, follows.ownerWithin_of rfl reader, .inl idle⟩, ?_⟩
    have caughtUp := follows.orderly.returned.length_le
    simp [pool, SpscQueue.History.next, recyclerHand, recycled, writing, ownerHand,
      List.drop_append_of_le_length caughtUp]

theorem flushing (follows : allocator.Follows queued) {msg : Addr}
    (flushing : allocator.recycler = .flushing msg)
    (unallocated : allocator.idleQueue.queue.heap fresh = none)
    (done : allocator.recyclerStep fresh = some (label, next)) :
    allocator.Moves queued label next := by
  have within := follows.recycler
  have flushed := follows.flushed
  rw [RecyclerWithin, flushing] at within
  rw [Flushed, flushing] at flushed
  have enabled : allocator.idleQueue.Enabled (allocator.idleQueue.orWriter .flush fresh) :=
    SpscQueue.enabled_orWriter id unallocated
  obtain ⟨flush, queue, result, continues⟩ := follows.queue_continues enabled
  rw [recyclerStep, flushing] at done
  dsimp only at done
  rw [result] at done
  obtain ⟨reader, ⟨rfl, inside⟩ | ⟨⟨returned, rfl⟩, idle⟩⟩ := SpscQueue.flush_cases within result
  · obtain ⟨rfl, rfl⟩ := Prod.mk.inj (Option.some_inj.mp done)
    refine ⟨queued, ⟨continues, follows.completed, flushed, follows.ownerWithin_of rfl reader,
      .inr inside⟩, ?_⟩
    exact pool_congr queued rfl rfl rfl flushing.symm
  · obtain ⟨-, refines⟩ := continues
    obtain ⟨rfl, rfl⟩ := Prod.mk.inj (Option.some_inj.mp done)
    obtain ⟨written, completed, kept⟩ : (queued.next (.flush returned)).written =
        queued.written ∧ (queued.next (.flush returned)).completed = queued.completed ∧
        (queued.next (.flush returned)).returned = queued.returned := by
      rw [SpscQueue.History.next]
      split <;> exact ⟨rfl, rfl, rfl⟩
    have flushedAll : (queued.next (.flush returned)).flushed = queued.completed := by
      rw [SpscQueue.History.next]
      split
      · assumption
      · rfl
    refine ⟨queued.next (.flush returned), ⟨refines, by rw [completed, written, follows.completed],
      ?_, follows.ownerWithin_of rfl reader, idle⟩, ?_⟩
    · rw [Flushed, flushedAll, written, follows.completed]
    · have stepped : (allocator.pool queued).Step .recycled _ := .recycled
      simpa [pool, written, kept, recyclerHand, flushing, ownerHand,
        MessageAllocator.recycled] using stepped

/-- Whatever a thread or a user does is what the pool does. -/
theorem step (follows : allocator.Follows queued) (stepped : Step allocator label next) :
    allocator.Moves queued label next := by
  obtain ⟨action, enabled, done⟩ := stepped
  cases action with
  | allocate capacity fresh => exact follows.allocate enabled.1 enabled.2.1 done
  | release msg => exact follows.release done
  | recycle msg => exact follows.recycle enabled.1 done
  | set msg setting => exact follows.set done
  | owner fresh =>
      cases owner : allocator.owner with
      | idle => exact absurd owner enabled.1
      | consuming capacity => exact follows.consuming owner done
      | received msg capacity => exact follows.received owner done
      | resuming capacity =>
          have within := follows.owner
          rw [OwnerWithin, owner] at within
          rw [exec, ownerStep, owner] at done
          exact follows.pick within.1 within.2 (by rw [ownerHand, owner]) enabled.2 done
  | recycler fresh =>
      cases recycler : allocator.recycler with
      | idle => exact absurd recycler enabled.1
      | writing msg => exact follows.writing recycler enabled.2 done
      | flushing msg => exact follows.flushing recycler enabled.2 done

end Follows

theorem Initial.follows {allocator : MessageAllocator} (initial : Initial allocator) :
    allocator.Follows {} ∧
      allocator.pool {} = ⟨fun _ => none, fun _ => none, [], none⟩ := by
  obtain ⟨enableRecycle, fresh, fresh', distinct, made⟩ := initial
  rw [init] at made
  obtain ⟨idleQueue, started, rest⟩ := Option.bind_eq_some_iff.mp made
  obtain rfl := Option.some_inj.mp rest
  have begins : SpscQueue.Initial idleGranularity idleQueue := ⟨fresh, fresh', distinct, started⟩
  obtain ⟨writer, reader⟩ := begins.idle
  exact ⟨⟨begins.refines (by decide), rfl, rfl, reader, writer⟩, rfl⟩

end MessageAllocator

end FlashForwarder
