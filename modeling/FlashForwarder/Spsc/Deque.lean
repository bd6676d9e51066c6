import Mathlib.Data.List.Chain
import Mathlib.Data.List.Nodup
import FlashForwarder.Library.Allocation
import FlashForwarder.Spsc.Layout

/-!
# The queue of chunks by itself

`BatchQueue` is a double-ended sequence: `Push` adds to its back, `Unpush` takes from its back and
`Pop` from its front.  Here one thread makes all the calls, and the chunks are followed from the
first `malloc` to the last `free` of the destructor.
-/

namespace FlashForwarder

open Transition Allocation

variable {α : Type}

namespace BatchQueue

/-- A call to a queue. -/
inductive Operation (α : Type) where
  /-- `Push`, and the assignment of a value to `Back()`; `fresh` is what `malloc` returns if it is
  called. -/
  | push (value : α) (fresh : Addr)
  /-- `Unpush` -/
  | unpush
  /-- `Pop` -/
  | pop

section

variable (N : Nat) (queue : BatchQueue α)

/-- What a call does, unless its behaviour is undefined. -/
def exec : Operation α → Option (BatchQueue α)
  | .push value fresh => do
      let queue := queue.push
      let queue ← if queue.endPos ≠ N then some queue else queue.turnover fresh
      queue.store queue.back value
  | .unpush => queue.unpush N
  | .pop => do
      let (queue, emptied) ← queue.pop N
      match emptied with
      | none => return queue
      | some emptied => queue.recycle emptied

/-- What is passed to `free`, which ignores null pointers. -/
def freeing (pointer : Option Addr) : List (Call Addr) := pointer.toList.map Call.free

/-- How a call uses the allocator. -/
def calls : Operation α → List (Call Addr)
  | .push _ fresh =>
      if queue.endPos + 1 = N ∧ queue.spareChunk = none then [.malloc fresh] else []
  | .unpush =>
      if queue.endPos ≠ 0 then []
      else freeing do
        let last ← queue.chunk queue.endChunk
        let last ← queue.chunk last.prev
        last.next
  | .pop => if queue.beginPos + 1 = N then freeing queue.spareChunk else []

/-- The loop of the destructor, and how it uses the allocator.  It has no result if it is not done
after `fuel` rounds. -/
def freeChunks : Nat → BatchQueue α → Option (List (Call Addr) × BatchQueue α)
  | 0, _ => none
  | fuel + 1, queue =>
      if queue.beginChunk = queue.endChunk then do
        let freed ← queue.free queue.beginChunk
        return (freeing queue.beginChunk, freed)
      else do
        let first ← queue.chunk queue.beginChunk
        let freed ← { queue with beginChunk := first.next }.free queue.beginChunk
        let (calls, freed) ← freeChunks fuel freed
        return (freeing queue.beginChunk ++ calls, freed)

/-- `~BatchQueue`, and how it uses the allocator. -/
def destroy (fuel : Nat) : Option (List (Call Addr) × BatchQueue α) := do
  let (calls, queue) ← queue.freeChunks fuel
  let freed ← { queue with spareChunk := none }.free queue.spareChunk
  return (calls ++ freeing queue.spareChunk, freed)

/-- A call may be made: `malloc` returns what is not allocated. -/
def Enabled : Operation α → Prop
  | .push _ fresh => queue.heap fresh = none
  | .unpush | .pop => True

/-- One call to the queue, and how it uses the allocator. -/
def Step (queue : BatchQueue α) (label : Option (Operation α × List (Call Addr)))
    (next : BatchQueue α) : Prop :=
  ∃ operation, queue.Enabled operation ∧ label = some (operation, queue.calls N operation) ∧
    queue.exec N operation = some next

end

/-- The sequence after a call. -/
def Operation.apply (elements : List α) : Operation α → List α
  | .push value _ => elements ++ [value]
  | .unpush => elements.dropLast
  | .pop => elements.tail

/-- Nothing is taken from an empty sequence. -/
def Operation.Permitted (elements : List α) : Operation α → Prop
  | .push _ _ => True
  | .unpush | .pop => elements ≠ []

/-- A call takes nothing from an empty sequence. -/
def Permits (elements : List α) (label : Operation α × List (Call Addr)) : Prop :=
  label.1.Permitted elements

/-- The sequence after a call, however the allocator was used. -/
def after (elements : List α) (label : Operation α × List (Call Addr)) : List α :=
  label.1.apply elements

/-- The elements that were pushed and neither popped nor unpushed. -/
def contents (trace : List (Operation α × List (Call Addr))) : List α :=
  trace.foldl after []

/-- `chunks` are the chunks from `begin_chunk_` to `end_chunk_`, with `count` elements in them. -/
structure Shape (N : Nat) (queue : BatchQueue α) (chunks : List Addr) (count : Nat) : Prop where
  begins : chunks.head? = queue.beginChunk
  ends : chunks.getLast? = queue.endChunk
  nonempty : chunks ≠ []
  nodup : chunks.Nodup
  /-- Each of them points at the next one, and is pointed back at. -/
  linked : chunks.IsChain fun a b =>
    (queue.heap a).bind Chunk.next = some b ∧ (queue.heap b).bind Chunk.prev = some a
  beginPos_lt : queue.beginPos < N
  endPos_lt : queue.endPos < N
  /-- The places before the front, those of the elements, and those behind the back. -/
  capacity : queue.beginPos + count + (N - queue.endPos) = N * chunks.length
  /-- The spare chunk is not among them. -/
  spare : ∀ a, queue.spareChunk = some a → a ∉ chunks
  /-- No other chunk is allocated. -/
  owned : ∀ a, (queue.heap a).isSome ↔ a ∈ chunks ∨ queue.spareChunk = some a

/-! ## What is allocated -/

/-- The allocated chunks. -/
def allocated (queue : BatchQueue α) : Set Addr := {a | (queue.heap a).isSome}

section

variable {N : Nat} {queue queue' : BatchQueue α} {pointer : Option Addr} {added fresh : Addr}

theorem mem_allocated {a : Addr} : a ∈ queue.allocated ↔ (queue.heap a).isSome := Iff.rfl

theorem update_allocated {change : Chunk α → Chunk α}
    (updated : queue.update pointer change = some queue') :
    queue'.allocated = queue.allocated := by
  obtain ⟨address, rfl, updated⟩ := Option.bind_eq_some_iff.mp updated
  obtain ⟨chunk, here, updated⟩ := Option.bind_eq_some_iff.mp updated
  obtain rfl := Option.some_inj.mp updated
  ext a
  by_cases same : a = address
  · simp [mem_allocated, same, here]
  · simp [mem_allocated, Function.update_of_ne same]

theorem free_follows (freed : queue.free pointer = some queue') :
    Follows queue.allocated (freeing pointer) queue'.allocated := by
  cases pointer with
  | none =>
      obtain rfl := Option.some_inj.mp freed
      exact Follows.refl _
  | some address =>
      obtain ⟨chunk, here, freed⟩ := Option.bind_eq_some_iff.mp freed
      obtain rfl := Option.some_inj.mp freed
      refine ⟨by simp [mem_allocated, here], Set.ext fun a => ?_⟩
      by_cases same : a = address
      · simp [mem_allocated, same]
      · simp [mem_allocated, same]

/-- A freed chunk is no longer allocated, and nothing else happens. -/
theorem free_frame (freed : queue.free pointer = some queue') :
    queue'.spareChunk = queue.spareChunk ∧ queue'.back = queue.back ∧
      ∀ a ∈ queue'.allocated, a ∈ queue.allocated ∧ pointer ≠ some a := by
  cases pointer with
  | none =>
      obtain rfl := Option.some_inj.mp freed
      exact ⟨rfl, rfl, fun a here => ⟨here, by simp⟩⟩
  | some old =>
      obtain ⟨chunk, -, freed⟩ := Option.bind_eq_some_iff.mp freed
      obtain rfl := Option.some_inj.mp freed
      refine ⟨rfl, rfl, fun a here => ?_⟩
      by_cases same : a = old
      · simp [mem_allocated, same] at here
      · exact ⟨by simpa [mem_allocated, same] using here, by simpa using Ne.symm same⟩

/-- A null pointer can be freed, and one to an allocated chunk. -/
theorem free_isSome (present : ∀ a, pointer = some a → a ∈ queue.allocated) :
    (queue.free pointer).isSome := by
  cases pointer with
  | none => rfl
  | some old =>
      obtain ⟨chunk, here⟩ := Option.isSome_iff_exists.mp (present old rfl)
      simp [free, here]

theorem malloc_allocated : (queue.malloc fresh).allocated = insert fresh queue.allocated := by
  ext a
  by_cases same : a = fresh
  · simp [mem_allocated, malloc, same]
  · simp [mem_allocated, malloc, same]

theorem link_allocated (linked : queue.link added = some queue') :
    queue'.allocated = queue.allocated := by
  obtain ⟨ahead, first, linked⟩ := Option.bind_eq_some_iff.mp linked
  obtain ⟨back, second, linked⟩ := Option.bind_eq_some_iff.mp linked
  obtain ⟨last, -, linked⟩ := Option.bind_eq_some_iff.mp linked
  obtain rfl := Option.some_inj.mp linked
  exact (update_allocated second).trans (update_allocated first)

/-- A turnover allocates one chunk if there is no spare one, and frees none. -/
theorem turnover_allocated (turned : queue.turnover fresh = some queue') (a : Addr) :
    a ∈ queue'.allocated ↔ a ∈ queue.allocated ∨ queue.spareChunk = none ∧ a = fresh := by
  cases spare : queue.spareChunk with
  | none =>
      rw [turnover, spare] at turned
      rw [link_allocated turned, malloc_allocated, Set.mem_insert_iff, or_comm]
      simp
  | some added =>
      rw [turnover, spare] at turned
      rw [link_allocated turned]
      simp [mem_allocated]

theorem turnover_follows (unallocated : queue.heap fresh = none)
    (turned : queue.turnover fresh = some queue') :
    Follows queue.allocated (if queue.spareChunk = none then [.malloc fresh] else [])
      queue'.allocated := by
  have same := turnover_allocated turned
  split
  · rename_i empty
    refine ⟨by simp [mem_allocated, unallocated], Set.ext fun a => ?_⟩
    rw [same, Set.mem_insert_iff, or_comm]
    simp [empty]
  · rename_i spare
    refine Set.ext fun a => ?_
    rw [same]
    simp [spare]

theorem recycle_follows {emptied : Addr} (recycled : queue.recycle emptied = some queue') :
    Follows queue.allocated (freeing queue.spareChunk) queue'.allocated := by
  have followed := free_follows recycled
  exact followed

theorem recycle_frame {emptied : Addr} (recycled : queue.recycle emptied = some queue') :
    queue'.spareChunk = some emptied ∧ queue'.back = queue.back ∧
      ∀ a ∈ queue'.allocated, a ∈ queue.allocated ∧ queue.spareChunk ≠ some a := by
  obtain ⟨spare, back, rest⟩ := free_frame recycled
  exact ⟨spare, back, rest⟩

/-- Where the back is going to be does not matter to `Pop`. -/
theorem pop_push :
    queue.push.pop N = (queue.pop N).map fun popped => (popped.1.push, popped.2) := by
  by_cases border : queue.beginPos + 1 = N
  · simp [pop, push, border, update, Option.map_bind, Option.bind_assoc, Function.comp_def]
  · simp [pop, push, border]

theorem recycle_push {emptied : Addr} :
    queue.push.recycle emptied = (queue.recycle emptied).map push := by
  cases spare : queue.spareChunk with
  | none => simp [recycle, push, spare, free]
  | some old => simp [recycle, push, spare, free, Option.map_bind, Function.comp_def]

theorem store_allocated {item : Option Item} {value : α}
    (stored : queue.store item value = some queue') : queue'.allocated = queue.allocated := by
  obtain ⟨item, rfl, updated⟩ := Option.bind_eq_some_iff.mp stored
  exact update_allocated updated

/-- Moving the back changes neither the chunks nor the end. -/
theorem unpushBack_frame (moved : queue.unpushBack N = some queue') :
    queue'.heap = queue.heap ∧ queue'.endPos = queue.endPos ∧
      queue'.endChunk = queue.endChunk := by
  rw [unpushBack] at moved
  split at moved
  · obtain rfl := Option.some_inj.mp moved
    exact ⟨rfl, rfl, rfl⟩
  · obtain ⟨last, -, moved⟩ := Option.bind_eq_some_iff.mp moved
    obtain rfl := Option.some_inj.mp moved
    exact ⟨rfl, rfl, rfl⟩

/-- Popping allocates and frees nothing before the spare chunk is exchanged, and it leaves the back
alone. -/
theorem pop_frame {emptied : Option Addr} (popped : queue.pop N = some (queue', emptied)) :
    queue'.allocated = queue.allocated ∧ queue'.spareChunk = queue.spareChunk ∧
      queue'.back = queue.back ∧
      (emptied = none ↔ queue.beginPos + 1 ≠ N) ∧
      ∀ a, emptied = some a → queue.beginChunk = some a := by
  rw [pop] at popped
  split at popped
  · rename_i border
    obtain ⟨first, begins, popped⟩ := Option.bind_eq_some_iff.mp popped
    obtain ⟨chunk, -, popped⟩ := Option.bind_eq_some_iff.mp popped
    obtain ⟨ahead, updated, popped⟩ := Option.bind_eq_some_iff.mp popped
    obtain ⟨rfl, rfl⟩ := Prod.mk.inj (Option.some_inj.mp popped)
    have same := update_allocated updated
    obtain ⟨address, -, updated⟩ := Option.bind_eq_some_iff.mp updated
    obtain ⟨chunk, -, updated⟩ := Option.bind_eq_some_iff.mp updated
    obtain rfl := Option.some_inj.mp updated
    exact ⟨same, rfl, rfl, by simp [border], fun a here => begins.trans here⟩
  · rename_i inside
    obtain ⟨rfl, rfl⟩ := Prod.mk.inj (Option.some_inj.mp popped)
    exact ⟨rfl, rfl, rfl, by simp [inside], fun a here => by simp at here⟩

theorem unpush_follows (unpushed : queue.unpush N = some queue') :
    Follows queue.allocated (queue.calls N .unpush) queue'.allocated := by
  rw [unpush_eq] at unpushed
  obtain ⟨moved, back, shrunk⟩ := Option.bind_eq_some_iff.mp unpushed
  obtain ⟨heap, endPos, endChunk⟩ := unpushBack_frame back
  have same : queue.allocated = moved.allocated := by rw [allocated, allocated, heap]
  have chunk_eq : ∀ pointer, queue.chunk pointer = moved.chunk pointer := by
    intro pointer
    rw [chunk, chunk, heap]
  rw [calls, ← endPos, ← endChunk, same, chunk_eq]
  rw [unpushEnd] at shrunk
  split at shrunk
  · rename_i inside
    obtain rfl := Option.some_inj.mp shrunk
    rw [if_pos inside]
    exact Follows.refl _
  · rename_i start
    obtain ⟨last, here, shrunk⟩ := Option.bind_eq_some_iff.mp shrunk
    obtain ⟨before, there, shrunk⟩ := Option.bind_eq_some_iff.mp shrunk
    obtain ⟨freed, free, shrunk⟩ := Option.bind_eq_some_iff.mp shrunk
    have ahead : moved.chunk last.prev = some before := there
    rw [if_neg start, here, update_allocated shrunk]
    simp only [Option.bind_eq_bind, Option.bind_some, chunk_eq, ahead]
    have followed := free_follows free
    exact followed

/-- A call uses the allocator as it says, and only so. -/
theorem exec_follows {operation : Operation α} (enabled : queue.Enabled operation)
    (done : queue.exec N operation = some queue') :
    Follows queue.allocated (queue.calls N operation) queue'.allocated := by
  cases operation with
  | push value fresh =>
      rw [exec] at done
      split at done
      · rename_i inside
        obtain ⟨pushed, turned, stored⟩ := Option.bind_eq_some_iff.mp done
        obtain rfl := Option.some_inj.mp turned
        rw [calls, store_allocated stored, if_neg fun full => inside full.1]
        exact Follows.refl _
      · rename_i full
        obtain ⟨pushed, turned, stored⟩ := Option.bind_eq_some_iff.mp done
        have unallocated : queue.push.heap fresh = none := enabled
        have followed := turnover_follows unallocated turned
        rw [calls, store_allocated stored]
        simp only [show queue.endPos + 1 = N from not_not.mp full, true_and]
        exact followed
  | unpush => exact unpush_follows done
  | pop =>
      rw [exec] at done
      obtain ⟨⟨popped, emptied⟩, pop, rest⟩ := Option.bind_eq_some_iff.mp done
      obtain ⟨allocated, spare, -, full, -⟩ := pop_frame pop
      rw [calls, ← allocated, ← spare]
      cases emptied with
      | none =>
          obtain rfl := Option.some_inj.mp rest
          rw [if_neg (full.mp rfl)]
          exact Follows.refl _
      | some emptied =>
          have border : queue.beginPos + 1 = N := by simpa using full
          rw [if_pos border]
          exact recycle_follows rest

/-! ## The destructor -/

/-- The loop frees the chunks it meets, and nothing else. -/
theorem freeChunks_follows {fuel : Nat} {freed : List (Call Addr)}
    (done : queue.freeChunks fuel = some (freed, queue')) :
    Follows queue.allocated freed queue'.allocated := by
  induction fuel generalizing queue freed with
  | zero => simp [freeChunks] at done
  | succ fuel ih =>
      rw [freeChunks] at done
      split at done
      · obtain ⟨last, free, done⟩ := Option.bind_eq_some_iff.mp done
        obtain ⟨rfl, rfl⟩ := Prod.mk.inj (Option.some_inj.mp done)
        exact free_follows free
      · obtain ⟨first, -, done⟩ := Option.bind_eq_some_iff.mp done
        obtain ⟨rest, free, done⟩ := Option.bind_eq_some_iff.mp done
        obtain ⟨⟨calls, last⟩, more, done⟩ := Option.bind_eq_some_iff.mp done
        obtain ⟨rfl, rfl⟩ := Prod.mk.inj (Option.some_inj.mp done)
        have followed := free_follows free
        exact Follows.append followed (ih more)

theorem destroy_follows {fuel : Nat} {freed : List (Call Addr)}
    (done : queue.destroy fuel = some (freed, queue')) :
    Follows queue.allocated freed queue'.allocated := by
  obtain ⟨⟨calls, rest⟩, loop, done⟩ := Option.bind_eq_some_iff.mp done
  obtain ⟨last, free, done⟩ := Option.bind_eq_some_iff.mp done
  obtain ⟨rfl, rfl⟩ := Prod.mk.inj (Option.some_inj.mp done)
  have followed := free_follows free
  exact (freeChunks_follows loop).append followed

/-- The loop ends when it has freed the chunks from `begin_chunk_` to `end_chunk_`. -/
theorem freeChunks_eq {addr : Nat → Addr} {first last fuel : Nat}
    (chain : Chain queue.heap addr first last) (begins : queue.beginChunk = some (addr first))
    (ends : queue.endChunk = some (addr last)) (first_le : first ≤ last)
    (enough : last - first < fuel) :
    ∃ freed queue', queue.freeChunks fuel = some (freed, queue') ∧
      queue'.spareChunk = queue.spareChunk ∧
      (∀ k, first ≤ k → k ≤ last → queue'.heap (addr k) = none) ∧
      ∀ a, (∀ k, first ≤ k → k ≤ last → addr k ≠ a) → queue'.heap a = queue.heap a := by
  induction fuel generalizing queue first with
  | zero => omega
  | succ fuel ih =>
      obtain ⟨chunk, here⟩ := Option.isSome_iff_exists.mp
        (chain.allocated first (Nat.le_refl _) first_le)
      rcases Nat.lt_or_eq_of_le first_le with more | rfl
      · have next : chunk.next = some (addr (first + 1)) := by
          simpa [here] using chain.next first (Nat.le_refl _) more
        have other : ∀ k, first < k → k ≤ last → addr k ≠ addr first := by
          intro k above below same
          have := chain.injective k first (by omega) below (Nat.le_refl _) first_le same
          omega
        have notEnd : queue.beginChunk ≠ queue.endChunk := by
          rw [begins, ends]
          exact fun same => other last more (Nat.le_refl _) (Option.some_inj.mp same).symm
        obtain ⟨shorter, shorter_eq⟩ : ∃ shorter, shorter = { queue with
          beginChunk := chunk.next
          heap := Function.update queue.heap (addr first) none } := ⟨_, rfl⟩
        have heap_eq : shorter.heap = Function.update queue.heap (addr first) none := by
          rw [shorter_eq]
        have chain' : Chain shorter.heap addr (first + 1) last := by
          rw [heap_eq]
          refine chain.dropFirst fun k above below => ?_
          rw [Function.update_of_ne (other k above below)]
          exact ⟨rfl, rfl, fun _ => rfl⟩
        obtain ⟨freed, queue', loop, spare, gone, kept⟩ := ih chain'
          (by rw [shorter_eq, next]) (by rw [shorter_eq, ends]) more (by omega)
        refine ⟨freeing (some (addr first)) ++ freed, queue', ?_, ?_, ?_, ?_⟩
        · rw [shorter_eq] at loop
          rw [freeChunks, if_neg notEnd]
          simp [begins, BatchQueue.chunk, BatchQueue.free, here, loop]
        · rw [spare, shorter_eq]
        · intro k above below
          rcases Nat.lt_or_eq_of_le above with later | rfl
          · exact gone k later below
          · rw [kept _ fun k above' below' => other k above' below', heap_eq, Function.update_self]
        · intro a apart
          rw [kept a fun k above below => apart k (by omega) below, heap_eq,
            Function.update_of_ne (apart first (Nat.le_refl _) first_le).symm]
      · refine ⟨freeing (some (addr first)),
          { queue with heap := Function.update queue.heap (addr first) none }, ?_, rfl, ?_, ?_⟩
        · simp [freeChunks, begins, ends, BatchQueue.free, here]
        · intro k above below
          obtain rfl : k = first := by omega
          exact Function.update_self ..
        · intro a apart
          exact Function.update_of_ne (apart first (Nat.le_refl _) (Nat.le_refl _)).symm _ _

end

/-! ## Where the elements are -/

theorem back_eq_some {queue : BatchQueue α} {item : Item} (back : queue.back = some item) :
    queue.backChunk = some item.chunk ∧ queue.backPos = item.index := by
  obtain ⟨chunk, here, rfl⟩ := Option.map_eq_some_iff.mp back
  exact ⟨here, rfl⟩

/-- The queue holds the elements of `stored` from number `taken` on, in chunks up to number `last`.
Its end is where the next `Push` puts the back. -/
structure Holds (N : Nat) (queue : BatchQueue α) (addr : Nat → Addr) (taken last : Nat)
    (stored : List α) : Prop where
  pushed : Layout N queue.push addr taken last stored none
  endPos_lt : queue.endPos < N
  /-- The back is at the last element, if there is one. -/
  back : taken < stored.length → queue.back = some (place N addr (stored.length - 1))
  /-- No chunk is lost. -/
  owned : ∀ a, (queue.heap a).isSome →
    queue.spareChunk = some a ∨ ∃ k, taken / N ≤ k ∧ k ≤ last ∧ addr k = a

namespace Holds

variable {N : Nat} {queue : BatchQueue α} {addr : Nat → Addr} {taken last : Nat} {stored : List α}

theorem endPos (holds : Holds N queue addr taken last stored) :
    N * last + queue.endPos = stored.length := by
  have ends : N * last + (queue.endPos + 1) = stored.length + 1 := holds.pushed.endPos
  omega

theorem init (positive : 0 < N) (fresh : Addr) :
    Holds N (BatchQueue.init (α := α) fresh) (fun _ => fresh) 0 0 [] where
  pushed := Layout.init positive fresh
  endPos_lt := positive
  back := fun filled => absurd filled (Nat.not_lt_zero 0)
  owned := by
    intro a allocated
    refine Or.inr ⟨0, Nat.le_of_eq (Nat.zero_div N), Nat.le_refl 0, ?_⟩
    by_contra other
    simp [BatchQueue.init, Function.update_of_ne (Ne.symm other)] at allocated

theorem front_eq (holds : Holds N queue addr taken last stored) (filled : taken < stored.length) :
    queue.load queue.front = stored[taken]? := by
  have front : queue.front = some (place N addr taken) := holds.pushed.front_eq
  rw [front, List.getElem?_eq_getElem filled]
  exact holds.pushed.values taken _ (Nat.le_refl _) (List.getElem?_eq_getElem filled)

theorem back_eq (holds : Holds N queue addr taken last stored) (filled : taken < stored.length) :
    queue.load queue.back = stored[stored.length - 1]? := by
  have inside : stored.length - 1 < stored.length := by omega
  rw [holds.back filled, List.getElem?_eq_getElem inside]
  exact holds.pushed.values _ _ (by omega) (List.getElem?_eq_getElem inside)

section

variable (positive : 0 < N)

include positive

/-- A value is written to the back, when that is behind all elements. -/
theorem of_store (layout : Layout N queue addr taken last stored none) (room : queue.endPos < N)
    (owned : ∀ a, (queue.heap a).isSome →
      queue.spareChunk = some a ∨ ∃ k, taken / N ≤ k ∧ k ≤ last ∧ addr k = a) (value : α) :
    ∃ queue', queue.store queue.back value = some queue' ∧
      Holds N queue' addr taken last (stored ++ [value]) := by
  obtain ⟨queue', stored_eq, endPos, spare, back, pushed⟩ := layout.store_push positive room value
  refine ⟨queue', stored_eq, pushed, endPos ▸ room, fun _ => ?_, fun a allocated => ?_⟩
  · rw [back, layout.back_eq, List.length_append, List.length_singleton, Nat.add_sub_cancel]
  · rw [spare]
    rw [← mem_allocated, store_allocated stored_eq] at allocated
    exact owned a allocated

theorem push (holds : Holds N queue addr taken last stored) {fresh : Addr}
    (unallocated : queue.heap fresh = none) (value : α) :
    ∃ queue' addr' last', queue.exec N (.push value fresh) = some queue' ∧
      Holds N queue' addr' taken last' (stored ++ [value]) := by
  have layout := holds.pushed
  by_cases full : queue.push.endPos = N
  · obtain ⟨longer, turned, endPos, spare, linked⟩ := layout.turnover positive full unallocated
    have owned : ∀ a, (longer.heap a).isSome → longer.spareChunk = some a ∨ ∃ k, taken / N ≤ k ∧
        k ≤ last + 1 ∧ Function.update addr (last + 1) (queue.spareChunk.getD fresh) k = a := by
      intro a allocated
      have before : a ∈ queue.allocated → queue.spareChunk = some a ∨
          ∃ k, taken / N ≤ k ∧ k ≤ last + 1 ∧
            Function.update addr (last + 1) (queue.spareChunk.getD fresh) k = a := by
        intro allocated
        refine (holds.owned a allocated).imp id ?_
        rintro ⟨k, above, below, here⟩
        exact ⟨k, above, by omega, by rwa [Function.update_of_ne (by omega)]⟩
      have first := layout.first_le positive
      have new : a = queue.spareChunk.getD fresh → ∃ k, taken / N ≤ k ∧ k ≤ last + 1 ∧
          Function.update addr (last + 1) (queue.spareChunk.getD fresh) k = a := by
        rintro rfl
        exact ⟨last + 1, by omega, Nat.le_refl _, Function.update_self ..⟩
      right
      rcases (turnover_allocated turned a).mp allocated with old | ⟨empty, rfl⟩
      · exact (before old).elim (fun isSpare => new (by rw [isSpare]; rfl)) id
      · exact new (by rw [show queue.spareChunk = none from empty]; rfl)
    obtain ⟨queue', stored_eq, holds'⟩ := of_store positive linked (by omega) owned value
    refine ⟨queue', _, _, ?_, holds'⟩
    rw [exec, if_neg (not_not.mpr full), turned]
    exact stored_eq
  · have room : queue.push.endPos < N := Nat.lt_of_le_of_ne layout.endPos_le full
    obtain ⟨queue', stored_eq, holds'⟩ := of_store positive layout room holds.owned value
    refine ⟨queue', _, _, ?_, holds'⟩
    rw [exec, if_pos full]
    exact stored_eq

theorem unpush {value : α} (holds : Holds N queue addr taken last (stored ++ [value]))
    (held : taken ≤ stored.length) :
    ∃ queue' last', queue.exec N .unpush = some queue' ∧
      Holds N queue' addr taken last' stored := by
  have layout := holds.pushed
  have length : (stored ++ [value]).length = stored.length + 1 := by simp
  have ends := holds.endPos
  have back := holds.back
  rw [length] at ends back
  obtain ⟨backChunk, backPos⟩ := back_eq_some (back (Nat.lt_succ_of_le held))
  rw [Nat.add_sub_cancel] at backChunk backPos
  have first_le := layout.first_le positive
  have back_le : stored.length / N ≤ last := by
    rw [← Nat.lt_succ_iff, Nat.div_lt_iff_lt_mul positive, Nat.succ_mul, Nat.mul_comm]
    have := holds.endPos_lt
    omega
  have chain : Chain queue.heap addr (taken / N) last := layout.chain
  obtain ⟨backPos', backChunk', moved, there⟩ :=
    chain.unpushBack positive (Nat.div_le_div_right held) back_le backChunk backPos
  let moved' : BatchQueue α := { queue with backPos := backPos', backChunk := backChunk' }
  have linked : moved'.endPos = 0 → taken / N < last := by
    intro start
    have start : queue.endPos = 0 := start
    rw [Nat.div_lt_iff_lt_mul positive, Nat.mul_comm]
    omega
  have chain : Chain moved'.heap addr (taken / N) last := chain
  obtain ⟨heap, last', endPos', shrunk, ends', room', first, last'_le, chain', values, gone,
      apart⟩ :=
    chain.unpushEnd positive layout.endChunk holds.endPos_lt first_le linked
  have endPos : N * last' + endPos' = stored.length := by
    have : moved'.endPos = queue.endPos := rfl
    omega
  obtain ⟨block, rest⟩ := div_mod_of_eq endPos room'
  refine ⟨{ moved' with heap := heap, endPos := endPos', endChunk := some (addr last') }, last', ?_,
    ⟨?_, room', ?_, ?_⟩⟩
  · rw [exec, unpush_eq, moved]
    exact shrunk
  · exact
      { chain := chain'
        beginChunk := layout.beginChunk
        beginPos := layout.beginPos
        backChunk := by rw [block]; rfl
        backPos := rest.symm
        endChunk := rfl
        endPos := congrArg Nat.succ endPos
        endPos_le := room'
        taken_le := held
        values := by
          intro i v held_i stored_v
          obtain ⟨bound, _⟩ := List.getElem?_eq_some_iff.mp stored_v
          rw [← layout.values i v held_i (by rwa [List.getElem?_append_left bound])]
          refine BatchQueue.load_congr (values _ (Nat.div_le_div_right held_i) ?_)
          rw [← block]
          exact Nat.div_le_div_right (Nat.le_of_lt bound)
        outside := by
          intro a out
          obtain ⟨allocated, apart_a⟩ := layout.outside a out
          refine ⟨?_, fun k above below => apart_a k above (by omega)⟩
          exact (congrArg Option.isSome (apart a apart_a)).trans allocated
        distinct := layout.distinct }
  · intro filled
    obtain ⟨rfl, rfl⟩ := there (stored.length - 1) (by omega) (Nat.div_le_div_right (by omega))
    rfl
  · intro a allocated
    by_cases inChain : ∃ k, taken / N ≤ k ∧ k ≤ last ∧ addr k = a
    · obtain ⟨k, above, below, rfl⟩ := inChain
      refine Or.inr ⟨k, above, ?_, rfl⟩
      by_contra beyond
      have := gone k (by omega) below
      simp [this] at allocated
    · have same := apart a fun k above below here => inChain ⟨k, above, below, here⟩
      exact (holds.owned a (same ▸ allocated)).imp id fun here => absurd here inChain

theorem pop (holds : Holds N queue addr taken last stored) (filled : taken < stored.length) :
    ∃ queue', queue.exec N .pop = some queue' ∧
      Holds N queue' addr (taken + 1) last stored := by
  obtain ⟨pushed, emptied, popped, endPos, layout⟩ := holds.pushed.pop positive filled
  rw [pop_push] at popped
  obtain ⟨⟨shorter, emptied'⟩, popped', same⟩ := Option.map_eq_some_iff.mp popped
  obtain ⟨rfl, rfl⟩ := Prod.mk.inj same
  obtain ⟨allocated, spare, back, border, begins⟩ := pop_frame popped'
  have beginPos : queue.beginPos = taken % N := holds.pushed.beginPos
  have room : shorter.endPos < N := by
    rw [show shorter.endPos = queue.endPos from Nat.succ_injective endPos]
    exact holds.endPos_lt
  have kept_back : taken + 1 < stored.length →
      queue.back = some (place N addr (stored.length - 1)) := fun filled' => holds.back (by omega)
  rw [exec, popped']
  cases emptied' with
  | none =>
      refine ⟨shorter, rfl, layout, room, fun filled' => ?_, fun a here => ?_⟩
      · rw [back, kept_back filled']
      · have inside : taken % N + 1 < N := by
          have := Nat.mod_lt taken positive
          have := border.mp rfl
          omega
        rw [← mem_allocated, allocated] at here
        rw [spare, (succ_div_mod_of_lt inside).1]
        exact holds.owned a here
  | some a =>
      obtain ⟨pushed, recycled, endPos', layout'⟩ := layout.recycle positive
      rw [recycle_push] at recycled
      obtain ⟨queue', recycled', rfl⟩ := Option.map_eq_some_iff.mp recycled
      obtain ⟨spare', back', rest⟩ := recycle_frame recycled'
      have room' : queue'.endPos < N := by
        rw [show queue'.endPos = shorter.endPos from Nat.succ_injective endPos']
        exact room
      refine ⟨queue', recycled', layout', room', fun filled' => ?_, fun b here => ?_⟩
      · rw [back', back, kept_back filled']
      · obtain ⟨here, notSpare⟩ := rest b here
        rw [allocated] at here
        have full : taken % N + 1 = N := by simpa [beginPos] using border
        have first : a = addr (taken / N) :=
          Option.some_inj.mp ((begins a rfl).symm.trans holds.pushed.beginChunk)
        rw [spare', (succ_div_mod_of_eq full).1]
        rcases holds.owned b here with isSpare | ⟨k, above, below, rfl⟩
        · exact absurd (spare.trans isSpare) notSpare
        · rcases Nat.lt_or_eq_of_le above with later | rfl
          · exact Or.inr ⟨k, later, below, rfl⟩
          · exact Or.inl (congrArg some first)

/-- The chunks from the first one in use to the last. -/
theorem shape (holds : Holds N queue addr taken last stored) :
    Shape N queue ((List.range' (taken / N) (last + 1 - taken / N)).map addr)
      (stored.length - taken) := by
  have layout := holds.pushed
  have chain : Chain queue.heap addr (taken / N) last := layout.chain
  have first_le := layout.first_le positive
  have numbers : ∀ a, a ∈ (List.range' (taken / N) (last + 1 - taken / N)).map addr ↔
      ∃ k, taken / N ≤ k ∧ k ≤ last ∧ addr k = a := by
    intro a
    rw [List.mem_map]
    constructor
    · rintro ⟨k, member, rfl⟩
      rw [List.mem_range'_1] at member
      exact ⟨k, member.1, by omega, rfl⟩
    · rintro ⟨k, above, below, rfl⟩
      exact ⟨k, List.mem_range'_1.mpr ⟨above, by omega⟩, rfl⟩
  have beginPos : queue.beginPos = taken % N := layout.beginPos
  have some_left : last + 1 - taken / N ≠ 0 := by omega
  refine
    { begins := ?_
      ends := ?_
      nonempty := by simp [some_left]
      nodup := ?_
      linked := ?_
      beginPos_lt := beginPos ▸ Nat.mod_lt taken positive
      endPos_lt := holds.endPos_lt
      capacity := ?_
      spare := ?_
      owned := ?_ }
  · rw [List.head?_map, List.head?_range', if_neg some_left]
    exact layout.beginChunk.symm
  · rw [List.getLast?_map, List.getLast?_range', if_neg some_left,
      show taken / N + (last + 1 - taken / N) - 1 = last by omega]
    exact layout.endChunk.symm
  · refine List.Nodup.map_on (fun j j_member k k_member same => ?_) List.nodup_range'
    rw [List.mem_range'_1] at j_member k_member
    exact chain.injective j k j_member.1 (by omega) k_member.1 (by omega) same
  · rw [List.isChain_map]
    refine (List.isChain_range' _ _ 1).imp_of_mem_imp fun j k j_member k_member successor => ?_
    rw [List.mem_range'_1] at j_member k_member
    subst successor
    exact ⟨chain.next j j_member.1 (by omega), chain.prev j j_member.1 (by omega)⟩
  · have split := Nat.div_add_mod taken N
    have ends := holds.endPos
    have room := holds.endPos_lt
    have taken_le := layout.taken_le
    have blocks := Nat.mul_le_mul_left N first_le
    rw [beginPos, List.length_map, List.length_range', Nat.mul_sub, Nat.mul_succ]
    omega
  · intro a isSpare member
    obtain ⟨k, above, below, here⟩ := (numbers a).mp member
    exact (layout.outside a (Or.inl isSpare)).2 k above below here
  · intro a
    rw [numbers]
    constructor
    · exact fun here => (holds.owned a here).symm
    · rintro (⟨k, above, below, rfl⟩ | isSpare)
      · exact chain.allocated k above below
      · exact (layout.outside a (Or.inl isSpare)).1

/-- The destructor ends, and leaves nothing allocated. -/
theorem destroy (holds : Holds N queue addr taken last stored) {fuel : Nat}
    (enough : last - taken / N < fuel) :
    ∃ freed queue', queue.destroy fuel = some (freed, queue') ∧ queue'.allocated = ∅ := by
  have layout := holds.pushed
  have chain : Chain queue.heap addr (taken / N) last := layout.chain
  obtain ⟨freed, rest, loop, spare, gone, kept⟩ :=
    freeChunks_eq chain layout.beginChunk layout.endChunk (layout.first_le positive) enough
  have left : ∀ a, (rest.heap a).isSome → queue.spareChunk = some a := by
    intro a here
    by_cases inChain : ∃ k, taken / N ≤ k ∧ k ≤ last ∧ addr k = a
    · obtain ⟨k, above, below, rfl⟩ := inChain
      simp [gone k above below] at here
    · have same := kept a fun k above below here => inChain ⟨k, above, below, here⟩
      rw [same] at here
      exact (holds.owned a here).resolve_right inChain
  have present : ∀ a, rest.spareChunk = some a →
      a ∈ allocated { rest with spareChunk := none } := by
    intro a isSpare
    obtain ⟨here, apart⟩ := layout.outside a (Or.inl (spare.symm.trans isSpare))
    exact (congrArg Option.isSome (kept a apart)).trans here
  obtain ⟨queue', free⟩ := Option.isSome_iff_exists.mp (free_isSome present)
  refine ⟨freed ++ freeing rest.spareChunk, queue', ?_, ?_⟩
  · simp [BatchQueue.destroy, loop, free]
  · refine Set.eq_empty_iff_forall_notMem.mpr fun a here => ?_
    obtain ⟨here, notSpare⟩ := (free_frame free).2.2 a here
    exact notSpare (spare.trans (left a here))

end

end Holds

/-! ## Runs -/

/-- The queue holds `elements`, wherever its chunks are. -/
def Refines (N : Nat) (queue : BatchQueue α) (elements : List α) : Prop :=
  ∃ addr taken last stored, Holds N queue addr taken last stored ∧ stored.drop taken = elements

variable {N : Nat} {queue : BatchQueue α} {elements : List α}

/-- A permitted call is defined, and does to the queue what it does to the sequence. -/
theorem Refines.exec (refines : Refines N queue elements) (positive : 0 < N)
    {operation : Operation α} (enabled : queue.Enabled operation)
    (permitted : operation.Permitted elements) :
    ∃ queue', queue.exec N operation = some queue' ∧
      Refines N queue' (operation.apply elements) := by
  obtain ⟨addr, taken, last, stored, holds, rfl⟩ := refines
  have taken_le : taken ≤ stored.length := holds.pushed.taken_le
  cases operation with
  | push value fresh =>
      obtain ⟨queue', addr', last', done, holds'⟩ := holds.push positive enabled value
      exact ⟨queue', done, addr', taken, last', _, holds', List.drop_append_of_le_length taken_le⟩
  | unpush =>
      have filled : taken < stored.length := by simpa [Operation.Permitted] using permitted
      rcases List.eq_nil_or_concat stored with rfl | ⟨earlier, value, rfl⟩
      · simp at filled
      · rw [List.concat_eq_append] at holds taken_le filled ⊢
        have held : taken ≤ earlier.length := by
          rw [List.length_append, List.length_singleton] at filled
          omega
        obtain ⟨queue', last', done, holds'⟩ := holds.unpush positive held
        refine ⟨queue', done, addr, taken, last', earlier, holds', ?_⟩
        rw [Operation.apply, List.drop_append_of_le_length held, List.dropLast_concat]
  | pop =>
      have filled : taken < stored.length := by simpa [Operation.Permitted] using permitted
      obtain ⟨queue', done, holds'⟩ := holds.pop positive filled
      exact ⟨queue', done, addr, taken + 1, last, stored, holds', List.tail_drop.symm⟩

/-- The queue follows the sequence. -/
theorem simulation (positive : 0 < N) :
    Simulation (Step (α := α) N) Permits (fun _ _ => True) after (Refines N) where
  silent := by
    rintro queue queue' elements - ⟨operation, -, label, -⟩
    simp at label
  visible := by
    rintro queue queue' elements label refines ⟨operation, enabled, same, done⟩ permitted
    obtain rfl := Option.some_inj.mp same
    obtain ⟨queue'', done', refines'⟩ := refines.exec positive enabled permitted
    obtain rfl := Option.some_inj.mp (done.symm.trans done')
    exact ⟨trivial, refines'⟩

/-- What is allocated after a run is what the calls of the allocator left. -/
theorem run_follows {fresh : Addr} {trace : List (Operation α × List (Call Addr))}
    (run : Run (Step N) (init fresh) trace queue) :
    Follows ∅ (.malloc fresh :: trace.flatMap Prod.snd) queue.allocated := by
  induction run with
  | nil =>
      refine ⟨Set.notMem_empty fresh, Set.ext fun a => ?_⟩
      by_cases same : a = fresh
      · simp [mem_allocated, init, same]
      · simp [mem_allocated, init, same]
  | silent _ stepped ih =>
      obtain ⟨operation, -, label, -⟩ := stepped
      simp at label
  | visible _ stepped ih =>
      obtain ⟨operation, enabled, same, done⟩ := stepped
      obtain rfl := Option.some_inj.mp same
      have followed := ih.append (exec_follows enabled done)
      simpa using followed

/-- In every run that takes nothing from an empty queue, `Front()` is the oldest of the elements
that were pushed and neither popped nor unpushed, and `Back()` is the newest, while there are any;
the chunks between the first and the last are linked both ways, have room for what the positions say
and are apart from the spare one; and no permitted call is undefined.  The destructor ends, and each
chunk was then freed once each time it was allocated. -/
theorem refines_deque (positive : 0 < N) {fresh : Addr}
    {trace : List (Operation α × List (Call Addr))} (run : Run (Step N) (init fresh) trace queue)
    (permitted : Throughout Permits after [] trace) :
    (contents trace ≠ [] →
      queue.load queue.front = (contents trace).head? ∧
      queue.load queue.back = (contents trace).getLast?) ∧
    (∃ chunks, Shape N queue chunks (contents trace).length) ∧
    (∀ operation, operation.Permitted (contents trace) → queue.Enabled operation →
      (queue.exec N operation).isSome) ∧
    ∃ rounds, ∀ fuel, rounds ≤ fuel → ∃ freed queue', queue.destroy fuel = some (freed, queue') ∧
      ∀ a, FreedOnce a (.malloc fresh :: trace.flatMap Prod.snd ++ freed) := by
  have start : Refines N (init fresh) ([] : List α) :=
    ⟨_, 0, 0, [], Holds.init positive fresh, rfl⟩
  have refines : Refines N queue (contents trace) :=
    ((simulation positive).follows start run permitted).1
  obtain ⟨addr, taken, last, stored, holds, contents_eq⟩ := id refines
  have shape := holds.shape positive
  rw [← List.length_drop, contents_eq] at shape
  refine ⟨fun nonempty => ?_, ⟨_, shape⟩, ?_, last - taken / N + 1, fun fuel enough => ?_⟩
  · have filled : taken < stored.length := by simpa [← contents_eq] using nonempty
    rw [← contents_eq, List.head?_drop, List.getLast?_drop, if_neg (by omega),
      List.getLast?_eq_getElem?]
    exact ⟨holds.front_eq filled, holds.back_eq filled⟩
  · intro operation allowed enabled
    obtain ⟨queue', done, -⟩ := refines.exec positive enabled allowed
    rw [done]
    rfl
  · obtain ⟨freed, queue', done, empty⟩ := holds.destroy positive enough
    refine ⟨freed, queue', done, fun a => ?_⟩
    have followed := (run_follows run).append (destroy_follows done)
    rw [empty] at followed
    exact followed.freed_once a

/-- Two elements are pushed, each into a chunk of its own, and one is unpushed. -/
theorem refines_deque_once :
    ∃ queue, Run (Step 1) (init 0) [(.push 7 1, [.malloc 1]), (.push 8 2, [.malloc 2]),
        (.unpush, [.free 2])] queue ∧
      queue.load queue.front = some 7 ∧ queue.load queue.back = some 7 := by
  have first : Run (Step (α := Nat) 1) (init 0) ([] ++ [(.push 7 1, [.malloc 1])]) _ :=
    Run.nil.visible ⟨.push 7 1, rfl, rfl, rfl⟩
  have second : Run (Step (α := Nat) 1) (init 0) (_ ++ [(.push 8 2, [.malloc 2])]) _ :=
    first.visible ⟨.push 8 2, rfl, rfl, rfl⟩
  have third : Run (Step (α := Nat) 1) (init 0) (_ ++ [(.unpush, [.free 2])]) _ :=
    second.visible ⟨.unpush, trivial, rfl, rfl⟩
  have permitted : Throughout Permits after [] ([] ++ [(.push 7 1, [.malloc 1])] ++
      [(.push 8 2, [.malloc 2])] ++ [(.unpush, [.free 2])]) :=
    throughout_concat.mpr
      ⟨.concat (.concat .nil fun _ => trivial) fun _ => trivial, List.cons_ne_nil 7 [8]⟩
  exact ⟨_, third, (refines_deque Nat.one_pos third permitted).1 (List.cons_ne_nil 7 [])⟩

end BatchQueue

end FlashForwarder
