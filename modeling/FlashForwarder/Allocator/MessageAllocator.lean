import FlashForwarder.Spsc.Pipe
import Mathlib.Algebra.Group.Int.Defs

/-!
# The message allocator

Messages of up to 2 ^ 22 bytes are kept in one free list for each power of two.  The owner's thread
allocates and releases; the other thread recycles through a queue, which the owner empties into the
lists when it finds a list empty.  One step of either thread is at most one step of its thread in
the queue.
-/

namespace FlashForwarder

namespace MessageAllocator

/-- `kAllocateStart` -/
def allocateStart : Nat := 5

/-- `kAllocateStop` -/
def allocateStop : Nat := 22

/-- `kIdlemessage_tGranularity` -/
def idleGranularity : Nat := 256

/-- The size of `free_lists_`. -/
def slots : Nat := allocateStop - allocateStart + 1

/-- The members of `message_t`, but for `buffer_`, which has `capacity_` bytes. -/
structure Message where
  /-- `index_` -/
  index : Int
  /-- `capacity_` -/
  capacity : Int
  /-- `size_` -/
  size : Int32
  /-- `id_` -/
  id : Int32
  /-- `timestamp_` -/
  timestamp : Int64
  /-- `next_` -/
  next : Option Addr
  deriving DecidableEq

/-- What a user sets in a message. -/
inductive Setting where
  | size (size : Int32)
  | id (id : Int32)
  | timestamp (timestamp : Int64)

namespace Message

/-- A message as constructed; `next_` is indeterminate there, and taken as null. -/
def new : Message := ⟨0, 0, 0, 0, 0, none⟩

/-- `Init` -/
def init (message : Message) (index capacity : Int) : Message :=
  { message with index := index, capacity := capacity, size := 0, timestamp := 0, id := 0 }

/-- `Clear` -/
def clear (message : Message) : Message :=
  { message with size := 0, next := none, timestamp := 0, id := 0 }

/-- `set_size`, `set_id` and `set_timestamp`. -/
def set (message : Message) : Setting → Message
  | .size size => { message with size := size }
  | .id id => { message with id := id }
  | .timestamp timestamp => { message with timestamp := timestamp }

end Message

/-- `MultiplyDeBruijnBitPosition` -/
def multiplyDeBruijnBitPosition : List Nat :=
  [0, 9, 1, 10, 13, 21, 2, 29, 11, 14, 16, 18, 22, 25, 3, 30,
    8, 12, 20, 28, 15, 17, 24, 7, 19, 27, 23, 6, 26, 5, 4, 31]

/-- The bits below the highest one are set. -/
def smear (v : UInt32) : UInt32 :=
  let v := v ||| v >>> 1
  let v := v ||| v >>> 2
  let v := v ||| v >>> 4
  let v := v ||| v >>> 8
  v ||| v >>> 16

/-- The entry of the table for a smeared number. -/
def bitPosition (v : UInt32) : Nat :=
  multiplyDeBruijnBitPosition.getD ((v * 0x07C4ACDD) >>> 27).toNat 0

/-- `index`, for a capacity that is not too big. -/
def indexOf (capacity : Int) : Nat :=
  let index := bitPosition (smear (UInt32.ofInt capacity))
  if index > allocateStart then index - allocateStart else 0

/-- Where the owner is. -/
inductive Owner where
  /-- Between two calls. -/
  | idle
  /-- In `ConsumeIdleQueue`, before or in a `Read`; `Allocate(capacity)` has called it. -/
  | consuming (capacity : Int)
  /-- In `ConsumeIdleQueue`, with a message that `Read` gave. -/
  | received (msg : Addr) (capacity : Int)
  /-- In `Allocate(capacity)`, after `ConsumeIdleQueue`. -/
  | resuming (capacity : Int)

/-- Where the other thread is. -/
inductive Recycler where
  /-- Between two calls. -/
  | idle
  /-- In `Recycle(msg)`, before or in the `Write`. -/
  | writing (msg : Addr)
  /-- In `Recycle(msg)`, before or in the `Flush`. -/
  | flushing (msg : Addr)

/-- What is seen of a step. -/
inductive Label where
  /-- `Allocate(capacity)` returns a message that looks like this. -/
  | allocated (capacity : Int) (msg : Addr) (message : Message)
  /-- `Release(msg)` -/
  | released (msg : Addr)
  /-- `Recycle(msg)` is called, of a message that looks like this. -/
  | recycling (msg : Addr) (message : Message)
  /-- `Recycle` returns, after its `Flush`. -/
  | recycled
  /-- `ConsumeIdleQueue` has put a message into its list. -/
  | moved (msg : Addr)
  /-- `ConsumeIdleQueue` has found the queue empty. -/
  | consumed
  /-- A user has set something in a message. -/
  | set (msg : Addr) (setting : Setting)

/-- A call, or one more step of a thread that is inside one.  A message that `new` makes and a chunk
that the queue allocates are at `fresh`. -/
inductive Action where
  | allocate (capacity : Int) (fresh : Addr)
  | release (msg : Addr)
  | recycle (msg : Addr)
  | set (msg : Addr) (setting : Setting)
  /-- The owner goes on. -/
  | owner (fresh : Addr)
  /-- The other thread goes on. -/
  | recycler (fresh : Addr)

end MessageAllocator

/-- The members of `message_allocator_t`, the messages, and where the two threads are. -/
structure MessageAllocator where
  /-- The messages that were made and not deleted. -/
  messages : Addr → Option MessageAllocator.Message
  /-- `enable_recycle_` -/
  enableRecycle : Bool
  /-- `free_lists_` -/
  freeLists : Nat → Option Addr
  /-- `idle_queue_` -/
  idleQueue : SpscQueue Addr
  /-- The owner. -/
  owner : MessageAllocator.Owner
  /-- The other thread. -/
  recycler : MessageAllocator.Recycler

namespace MessageAllocator

/-- The constructor and `Init`. -/
def init (enableRecycle : Bool) (fresh fresh' : Addr) : Option MessageAllocator := do
  let idleQueue ← SpscQueue.init idleGranularity fresh fresh'
  return ⟨fun _ => none, enableRecycle, fun _ => none, idleQueue, .idle, .idle⟩

variable (allocator : MessageAllocator)

/-- Store a message. -/
def store (msg : Addr) (message : Option Message) : MessageAllocator :=
  { allocator with messages := Function.update allocator.messages msg message }

/-- A message is put in front of the list of its index. -/
def putBack (msg : Addr) (message : Message) : Option MessageAllocator :=
  if 0 ≤ message.index ∧ message.index < slots then
    let freeHead := allocator.freeLists message.index.toNat
    some { allocator.store msg (some { message with next := freeHead }) with
      freeLists := Function.update allocator.freeLists message.index.toNat (some msg) }
  else
    none

/-- The end of `Allocate`: the head of a list, or a new message. -/
def pick (capacity : Int) (fresh : Addr) : Option (Option Label × MessageAllocator) := do
  let index := indexOf capacity
  match allocator.freeLists index with
  | some freeHead =>
      let result ← allocator.messages freeHead
      let message := { result with next := none }
      return (some (.allocated capacity freeHead message),
        { allocator.store freeHead (some message) with
          freeLists := Function.update allocator.freeLists index result.next
          owner := .idle })
  | none =>
      let message := Message.new.init index (2 ^ (allocateStart + index + 1))
      return (some (.allocated capacity fresh message),
        { allocator.store fresh (some message) with owner := .idle })

/-- `Allocate`, before it empties the queue. -/
def allocate (capacity : Int) (fresh : Addr) : Option (Option Label × MessageAllocator) :=
  if capacity > 2 ^ allocateStop then
    let message := Message.new.init (-1) capacity
    some (some (.allocated capacity fresh message), allocator.store fresh (some message))
  else if indexOf capacity < slots then
    if allocator.freeLists (indexOf capacity) = none ∧ allocator.enableRecycle then
      some (none, { allocator with owner := .consuming capacity })
    else
      allocator.pick capacity fresh
  else
    none

/-- `Release` -/
def release (msg : Addr) : Option (Option Label × MessageAllocator) := do
  let message ← allocator.messages msg
  if message.index < 0 then
    return (some (.released msg), allocator.store msg none)
  else do
    let allocator ← allocator.putBack msg message.clear
    return (some (.released msg), allocator)

/-- `Recycle`, before it writes to the queue. -/
def recycle (msg : Addr) : Option (Option Label × MessageAllocator) := do
  let message ← allocator.messages msg
  if message.index < 0 then
    return (some (.recycling msg message), allocator.store msg none)
  else
    return (some (.recycling msg message), { allocator with recycler := .writing msg })

/-- A user sets something in a message. -/
def set (msg : Addr) (setting : Setting) : Option (Option Label × MessageAllocator) := do
  let message ← allocator.messages msg
  return (some (.set msg setting), allocator.store msg (some (message.set setting)))

/-- One more step of the owner. -/
def ownerStep (fresh : Addr) : Option (Option Label × MessageAllocator) :=
  match allocator.owner with
  | .idle => none
  | .consuming capacity => do
      match ← allocator.idleQueue.exec idleGranularity (allocator.idleQueue.orReader .read) with
      | (some (.read (some msg)), queue) =>
          return (none, { allocator with idleQueue := queue, owner := .received msg capacity })
      | (some (.read none), queue) =>
          return (some .consumed,
            { allocator with idleQueue := queue, owner := .resuming capacity })
      | (_, queue) => return (none, { allocator with idleQueue := queue })
  | .received msg capacity =>
      match allocator.idleQueue.reader with
      | .idle => do
          let message ← allocator.messages msg
          let allocator ← allocator.putBack msg message
          return (some (.moved msg), { allocator with owner := .consuming capacity })
      | _ => do
          let (_, queue) ← allocator.idleQueue.exec idleGranularity .reader
          return (none, { allocator with idleQueue := queue })
  | .resuming capacity => allocator.pick capacity fresh

/-- One more step of the other thread. -/
def recyclerStep (fresh : Addr) : Option (Option Label × MessageAllocator) :=
  match allocator.recycler with
  | .idle => none
  | .writing msg => do
      let call := allocator.idleQueue.orWriter (.write msg false) fresh
      match ← allocator.idleQueue.exec idleGranularity call with
      | (some _, queue) =>
          return (none, { allocator with idleQueue := queue, recycler := .flushing msg })
      | (none, queue) => return (none, { allocator with idleQueue := queue })
  | .flushing _ => do
      let call := allocator.idleQueue.orWriter .flush fresh
      match ← allocator.idleQueue.exec idleGranularity call with
      | (some (.flush _), queue) =>
          return (some .recycled, { allocator with idleQueue := queue, recycler := .idle })
      | (_, queue) => return (none, { allocator with idleQueue := queue })

/-- A thread makes a call when it is in none, and what is allocated is not in use.  `Recycle` is
private; its one caller, `pipe_t`, has enabled it. -/
def Enabled : Action → Prop
  | .allocate capacity fresh => allocator.owner = .idle ∧ allocator.messages fresh = none ∧
      -2147483648 ≤ capacity ∧ capacity < 2147483648
  | .release _ => allocator.owner = .idle
  | .recycle _ => allocator.recycler = .idle ∧ allocator.enableRecycle = true
  | .set _ _ => True
  | .owner fresh => allocator.owner ≠ .idle ∧ allocator.messages fresh = none
  | .recycler fresh => allocator.recycler ≠ .idle ∧ allocator.idleQueue.queue.heap fresh = none

/-- What an action does, unless its behaviour is undefined. -/
def exec : Action → Option (Option Label × MessageAllocator)
  | .allocate capacity fresh => allocator.allocate capacity fresh
  | .release msg => allocator.release msg
  | .recycle msg => allocator.recycle msg
  | .set msg setting => allocator.set msg setting
  | .owner fresh => allocator.ownerStep fresh
  | .recycler fresh => allocator.recyclerStep fresh

/-- One step of a thread, or of a user. -/
def Step (allocator : MessageAllocator) (label : Option Label) (next : MessageAllocator) : Prop :=
  ∃ action, allocator.Enabled action ∧ allocator.exec action = some (label, next)

/-- An allocator as constructed and initialised. -/
def Initial (allocator : MessageAllocator) : Prop :=
  ∃ enableRecycle fresh fresh', fresh' ≠ fresh ∧
    init enableRecycle fresh fresh' = some allocator

end MessageAllocator

end FlashForwarder
