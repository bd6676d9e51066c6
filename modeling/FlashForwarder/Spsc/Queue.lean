import Mathlib.Logic.Function.Basic
import FlashForwarder.Library.Transition

/-!
# The lock-free queue

`BatchQueue` keeps items in chunks of `N` that the reader hands back to the writer through one
spare slot.  `SpscQueue` moves a flush pointer and a contended pointer over it.  One step of either
thread is at most one access to `contention_` or `spare_chunk_`.  An operation on a null or a freed
chunk has no result.
-/

namespace FlashForwarder

/-- Where a chunk is allocated. -/
abbrev Addr := Nat

/-- A `T*` into a chunk. -/
structure Item where
  /-- The chunk. -/
  chunk : Addr
  /-- The place in the chunk's `values`. -/
  index : Nat
  deriving DecidableEq

/-- `Chunk` -/
structure BatchQueue.Chunk (α : Type) where
  /-- `values`, with nothing where nothing was stored. -/
  values : Nat → Option α
  /-- `prev` -/
  prev : Option Addr
  /-- `next` -/
  next : Option Addr

/-- A chunk as `malloc` returns it. -/
def BatchQueue.Chunk.blank {α : Type} : BatchQueue.Chunk α := ⟨fun _ => none, none, none⟩

/-- The members of `BatchQueue`, and the memory they point into. -/
structure BatchQueue (α : Type) where
  /-- The allocated chunks. -/
  heap : Addr → Option (BatchQueue.Chunk α)
  /-- `begin_chunk_` -/
  beginChunk : Option Addr
  /-- `begin_pos_` -/
  beginPos : Nat
  /-- `back_chunk_` -/
  backChunk : Option Addr
  /-- `back_pos_` -/
  backPos : Nat
  /-- `end_chunk_` -/
  endChunk : Option Addr
  /-- `end_pos_` -/
  endPos : Nat
  /-- `spare_chunk_` -/
  spareChunk : Option Addr

namespace BatchQueue

variable {α : Type} (queue : BatchQueue α)

/-- The chunk behind a pointer. -/
def chunk (pointer : Option Addr) : Option (BatchQueue.Chunk α) := pointer.bind queue.heap

/-- Write to the chunk behind a pointer. -/
def update (pointer : Option Addr) (change : BatchQueue.Chunk α → BatchQueue.Chunk α) :
    Option (BatchQueue α) := do
  let address ← pointer
  let chunk ← queue.heap address
  return { queue with heap := Function.update queue.heap address (some (change chunk)) }

/-- `free` -/
def free : Option Addr → Option (BatchQueue α)
  | none => some queue
  | some address => do
      let _ ← queue.heap address
      return { queue with heap := Function.update queue.heap address none }

/-- `malloc`, when it returns `fresh`. -/
def malloc (fresh : Addr) : BatchQueue α :=
  { queue with heap := Function.update queue.heap fresh (some BatchQueue.Chunk.blank) }

/-- `&Front()` -/
def front : Option Item := queue.beginChunk.map fun chunk => ⟨chunk, queue.beginPos⟩

/-- `&Back()` -/
def back : Option Item := queue.backChunk.map fun chunk => ⟨chunk, queue.backPos⟩

/-- The value of an item. -/
def load (item : Option Item) : Option α := do
  let item ← item
  let chunk ← queue.heap item.chunk
  chunk.values item.index

/-- Assign to an item. -/
def store (item : Option Item) (value : α) : Option (BatchQueue α) := do
  let item ← item
  queue.update (some item.chunk) fun chunk =>
    { chunk with values := Function.update chunk.values item.index (some value) }

/-- `Push`, as far as it goes without the spare chunk. -/
def push : BatchQueue α :=
  { queue with
    backChunk := queue.endChunk
    backPos := queue.endPos
    endPos := queue.endPos + 1 }

/-- A chunk is appended to the last one. -/
def link (added : Addr) : Option (BatchQueue α) := do
  let queue ← queue.update queue.endChunk fun chunk => { chunk with next := some added }
  let queue ← queue.update (some added) fun chunk => { chunk with prev := queue.endChunk }
  let last ← queue.chunk queue.endChunk
  return { queue with endChunk := last.next, endPos := 0 }

/-- The rest of `Push` when the last chunk is full: the spare chunk, or a new one, is appended. -/
def turnover (fresh : Addr) : Option (BatchQueue α) :=
  match queue.spareChunk with
  | some spare => { queue with spareChunk := none }.link spare
  | none => (queue.malloc fresh).link fresh

/-- `Unpush` -/
def unpush (N : Nat) : Option (BatchQueue α) := do
  let queue ← (
    if queue.backPos ≠ 0 then
      some { queue with backPos := queue.backPos - 1 }
    else do
      let last ← queue.chunk queue.backChunk
      return { queue with backPos := N - 1, backChunk := last.prev })
  if queue.endPos ≠ 0 then
    return { queue with endPos := queue.endPos - 1 }
  else do
    let last ← queue.chunk queue.endChunk
    let queue := { queue with endPos := N - 1, endChunk := last.prev }
    let last ← queue.chunk queue.endChunk
    let queue ← queue.free last.next
    queue.update queue.endChunk fun chunk => { chunk with next := none }

/-- `Pop`, as far as it goes without the spare chunk, and the chunk that was emptied. -/
def pop (N : Nat) : Option (BatchQueue α × Option Addr) :=
  if queue.beginPos + 1 = N then do
    let emptied ← queue.beginChunk
    let chunk ← queue.heap emptied
    let queue := { queue with beginChunk := chunk.next }
    let queue ← queue.update queue.beginChunk fun chunk => { chunk with prev := none }
    return ({ queue with beginPos := 0 }, some emptied)
  else
    return ({ queue with beginPos := queue.beginPos + 1 }, none)

/-- The rest of `Pop` when a chunk was emptied: it becomes the spare chunk. -/
def recycle (emptied : Addr) : Option (BatchQueue α) :=
  { queue with spareChunk := some emptied }.free queue.spareChunk

/-- `Init`, when `malloc` returns `fresh`. -/
def init (fresh : Addr) : BatchQueue α where
  heap := Function.update (fun _ => none) fresh (some BatchQueue.Chunk.blank)
  beginChunk := some fresh
  beginPos := 0
  backChunk := none
  backPos := 0
  endChunk := some fresh
  endPos := 0
  spareChunk := none

end BatchQueue

/-- Where the writer is. -/
inductive Writer (α : Type) where
  /-- Between two calls. -/
  | idle
  /-- In `Write`, before the exchange of the spare chunk. -/
  | pushing (value : α) (incomplete : Bool)
  /-- In `Flush`, before the compare-and-swap. -/
  | flushing
  /-- In `Flush`, after a compare-and-swap that failed. -/
  | storing

/-- Where the reader is. -/
inductive Reader where
  /-- Between two calls. -/
  | idle
  /-- In `CheckRead`, before the compare-and-swap; called by `Read` or not. -/
  | checking (reading : Bool)
  /-- In `Read`, after a `CheckRead` that returned true. -/
  | taking
  /-- In `Pop`, before the exchange of the spare chunk. -/
  | recycling (emptied : Addr)

/-- The members of `SpscQueue`, and where its two threads are. -/
structure SpscQueue (α : Type) where
  /-- `queue_` -/
  queue : BatchQueue α
  /-- `w_item_` -/
  wItem : Option Item
  /-- `r_item_` -/
  rItem : Option Item
  /-- `f_item_` -/
  fItem : Option Item
  /-- `contention_` -/
  contention : Option Item
  /-- The writer. -/
  writer : Writer α
  /-- The reader. -/
  reader : Reader

/-- What is seen of a step. -/
inductive Label (α : Type) where
  /-- `Write(value, incomplete)` -/
  | write (value : α) (incomplete : Bool)
  /-- `Unwrite`, with the value it returns, if it returns true. -/
  | unwrite (value : Option α)
  /-- `Flush`, with what it returns. -/
  | flush (returned : Bool)
  /-- `CheckRead`, with what it returns. -/
  | checkRead (returned : Bool)
  /-- `Read`, with the value it returns, if it returns true. -/
  | read (value : Option α)

/-- A call, or one more step of a thread that is inside one. -/
inductive Action (α : Type) where
  | write (value : α) (incomplete : Bool)
  | unwrite
  | flush
  | checkRead
  | read
  /-- The writer goes on; `fresh` is what `malloc` returns if it is called. -/
  | writer (fresh : Addr)
  /-- The reader goes on. -/
  | reader

namespace SpscQueue

variable {α : Type}

/-- `Init` -/
def init (N : Nat) (fresh fresh' : Addr) : Option (SpscQueue α) := do
  let queue := (BatchQueue.init fresh).push
  let queue ← if queue.endPos ≠ N then some queue else queue.turnover fresh'
  return ⟨queue, queue.back, queue.back, queue.back, queue.back, .idle, .idle⟩

variable (N : Nat) (state : SpscQueue α)

/-- A thread makes a call when it is in none, and `malloc` returns what is not allocated. -/
def Enabled : Action α → Prop
  | .write _ _ | .unwrite | .flush => state.writer = .idle
  | .checkRead | .read => state.reader = .idle
  | .writer fresh => state.writer ≠ .idle ∧ state.queue.heap fresh = none
  | .reader => state.reader ≠ .idle

/-- The end of `Write`. -/
def written (queue : BatchQueue α) (incomplete : Bool) : SpscQueue α :=
  { state with
    queue := queue
    fItem := if incomplete then state.fItem else queue.back
    writer := .idle }

/-- `Write` -/
def write (value : α) (incomplete : Bool) : Option (Option (Label α) × SpscQueue α) := do
  let queue ← state.queue.store state.queue.back value
  let queue := queue.push
  if queue.endPos ≠ N then
    return (some (.write value incomplete), state.written queue incomplete)
  else
    return (none, { state with queue := queue, writer := .pushing value incomplete })

/-- `Unwrite` -/
def unwrite : Option (Option (Label α) × SpscQueue α) :=
  if state.fItem = state.queue.back then
    return (some (.unwrite none), state)
  else do
    let queue ← state.queue.unpush N
    let value ← queue.load queue.back
    return (some (.unwrite (some value)), { state with queue := queue })

/-- `Flush`, before it looks at `contention_`. -/
def flush : Option (Option (Label α) × SpscQueue α) :=
  if state.wItem = state.fItem then
    return (some (.flush true), state)
  else
    return (none, { state with writer := .flushing })

/-- One more step of the writer. -/
def writerStep (fresh : Addr) : Option (Option (Label α) × SpscQueue α) :=
  match state.writer with
  | .idle => none
  | .pushing value incomplete => do
      let queue ← state.queue.turnover fresh
      return (some (.write value incomplete), state.written queue incomplete)
  | .flushing =>
      if state.contention = state.wItem then
        return (some (.flush true),
          { state with contention := state.fItem, wItem := state.fItem, writer := .idle })
      else
        return (none, { state with wItem := state.contention, writer := .storing })
  | .storing =>
      return (some (.flush false),
        { state with contention := state.fItem, wItem := state.fItem, writer := .idle })

/-- `CheckRead`, before it looks at `contention_`; `Read` begins with it. -/
def checkRead (reading : Bool) : Option (Option (Label α) × SpscQueue α) :=
  if state.queue.front ≠ state.rItem ∧ state.rItem ≠ none then
    if reading then
      return (none, { state with reader := .taking })
    else
      return (some (.checkRead true), state)
  else
    return (none, { state with reader := .checking reading })

/-- The compare-and-swap of `CheckRead` and what follows. -/
def prefetch (reading : Bool) : Option (Option (Label α) × SpscQueue α) :=
  let front := state.queue.front
  let state :=
    if state.contention = front then { state with contention := none, rItem := front }
    else { state with rItem := state.contention }
  if front = state.rItem ∨ state.rItem = none then
    return (some (if reading then .read none else .checkRead false), { state with reader := .idle })
  else if reading then
    return (none, { state with reader := .taking })
  else
    return (some (.checkRead true), { state with reader := .idle })

/-- One more step of the reader. -/
def readerStep : Option (Option (Label α) × SpscQueue α) :=
  match state.reader with
  | .idle => none
  | .checking reading => state.prefetch reading
  | .taking => do
      let value ← state.queue.load state.queue.front
      let (queue, emptied) ← state.queue.pop N
      return (some (.read (some value)),
        { state with
          queue := queue
          reader := match emptied with
            | none => .idle
            | some emptied => .recycling emptied })
  | .recycling emptied => do
      let queue ← state.queue.recycle emptied
      return (none, { state with queue := queue, reader := .idle })

/-- What an action does, unless its behaviour is undefined. -/
def exec : Action α → Option (Option (Label α) × SpscQueue α)
  | .write value incomplete => state.write N value incomplete
  | .unwrite => state.unwrite N
  | .flush => state.flush
  | .checkRead => state.checkRead false
  | .read => state.checkRead true
  | .writer fresh => state.writerStep fresh
  | .reader => state.readerStep N

/-- One step of either thread. -/
def Step (state : SpscQueue α) (label : Option (Label α)) (next : SpscQueue α) : Prop :=
  ∃ action, state.Enabled action ∧ state.exec N action = some (label, next)

end SpscQueue

end FlashForwarder
