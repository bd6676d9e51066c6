import FlashForwarder.Spsc.Queue

/-!
# How items lie in chunks

Items are numbered from the first one ever pushed.  Item `i` lies in chunk number `i / N`, and the
chunks between the front and the end are linked in memory.  Each operation of `BatchQueue` moves
one border of this picture.
-/

namespace FlashForwarder

/-! ## Blocks of numbers -/

section

variable {N i : Nat}

theorem div_mod_of_eq {k p : Nat} (eq : N * k + p = i) (small : p < N) :
    i / N = k ∧ i % N = p := by
  subst eq
  constructor
  · rw [Nat.mul_add_div (by omega), Nat.div_eq_of_lt small, Nat.add_zero]
  · rw [Nat.mul_add_mod, Nat.mod_eq_of_lt small]

theorem succ_div_mod_of_lt (inside : i % N + 1 < N) :
    (i + 1) / N = i / N ∧ (i + 1) % N = i % N + 1 := by
  have split := Nat.div_add_mod i N
  exact div_mod_of_eq (by omega) inside

theorem succ_div_mod_of_eq (border : i % N + 1 = N) :
    (i + 1) / N = i / N + 1 ∧ (i + 1) % N = 0 := by
  have split := Nat.div_add_mod i N
  refine div_mod_of_eq ?_ (by omega)
  rw [Nat.mul_add, Nat.mul_one]
  omega

theorem eq_of_div_mod_eq {j : Nat} (sameBlock : i / N = j / N) (samePlace : i % N = j % N) :
    i = j := by
  rw [← Nat.div_add_mod i N, sameBlock, samePlace, Nat.div_add_mod]

end

/-! ## Linked chunks -/

variable {α : Type}

/-- Chunks number `first` to `last`, each at its own address and linked both ways. -/
structure Chain (heap : Addr → Option (BatchQueue.Chunk α)) (addr : Nat → Addr)
    (first last : Nat) : Prop where
  /-- No two chunks share an address. -/
  injective : ∀ j k, first ≤ j → j ≤ last → first ≤ k → k ≤ last → addr j = addr k → j = k
  /-- Every chunk is allocated. -/
  allocated : ∀ k, first ≤ k → k ≤ last → (heap (addr k)).isSome
  /-- Every chunk but the last points at the next one. -/
  next : ∀ k, first ≤ k → k < last →
    (heap (addr k)).bind BatchQueue.Chunk.next = some (addr (k + 1))
  /-- Every chunk but the first points at the one before. -/
  prev : ∀ k, first ≤ k → k < last →
    (heap (addr (k + 1))).bind BatchQueue.Chunk.prev = some (addr k)

namespace Chain

variable {heap heap' : Addr → Option (BatchQueue.Chunk α)} {addr : Nat → Addr} {first last : Nat}

/-- Changes elsewhere, or to values only, leave a chain as it is. -/
theorem congr (chain : Chain heap addr first last)
    (same : ∀ k, first ≤ k → k ≤ last → (heap' (addr k)).isSome = (heap (addr k)).isSome ∧
      (heap' (addr k)).bind BatchQueue.Chunk.next = (heap (addr k)).bind BatchQueue.Chunk.next ∧
      (heap' (addr k)).bind BatchQueue.Chunk.prev = (heap (addr k)).bind BatchQueue.Chunk.prev) :
    Chain heap' addr first last where
  injective := chain.injective
  allocated k above below := by rw [(same k above below).1]; exact chain.allocated k above below
  next k above below := by rw [(same k above (by omega)).2.1]; exact chain.next k above below
  prev k above below := by
    rw [(same (k + 1) (by omega) (by omega)).2.2]
    exact chain.prev k above below

/-- The first chunk is dropped, and the next one points back no more. -/
theorem dropFirst (chain : Chain heap addr first last)
    (same : ∀ k, first < k → k ≤ last → (heap' (addr k)).isSome = (heap (addr k)).isSome ∧
      (heap' (addr k)).bind BatchQueue.Chunk.next = (heap (addr k)).bind BatchQueue.Chunk.next ∧
      (first + 1 < k →
        (heap' (addr k)).bind BatchQueue.Chunk.prev = (heap (addr k)).bind BatchQueue.Chunk.prev)) :
    Chain heap' addr (first + 1) last where
  injective j k _ _ _ _ eq := chain.injective j k (by omega) (by omega) (by omega) (by omega) eq
  allocated k above below := by
    rw [(same k (by omega) below).1]
    exact chain.allocated k (by omega) below
  next k above below := by
    rw [(same k (by omega) (by omega)).2.1]
    exact chain.next k (by omega) below
  prev k above below := by
    rw [(same (k + 1) (by omega) (by omega)).2.2 (by omega)]
    exact chain.prev k (by omega) below

/-- The last chunk is dropped, and the one before points ahead no more. -/
theorem dropLast (chain : Chain heap addr first (last + 1))
    (same : ∀ k, first ≤ k → k ≤ last → (heap' (addr k)).isSome = (heap (addr k)).isSome ∧
      (k < last →
        (heap' (addr k)).bind BatchQueue.Chunk.next = (heap (addr k)).bind BatchQueue.Chunk.next) ∧
      (heap' (addr k)).bind BatchQueue.Chunk.prev = (heap (addr k)).bind BatchQueue.Chunk.prev) :
    Chain heap' addr first last where
  injective j k _ _ _ _ eq := chain.injective j k (by omega) (by omega) (by omega) (by omega) eq
  allocated k above below := by
    rw [(same k above below).1]
    exact chain.allocated k above (by omega)
  next k above below := by
    rw [(same k above (by omega)).2.1 below]
    exact chain.next k above (by omega)
  prev k above below := by
    rw [(same (k + 1) (by omega) (by omega)).2.2]
    exact chain.prev k above (by omega)

theorem append (chain : Chain heap addr first last) {added : Addr}
    (apart : ∀ k, first ≤ k → k ≤ last → addr k ≠ added)
    (same : ∀ k, first ≤ k → k ≤ last → (heap' (addr k)).isSome = (heap (addr k)).isSome ∧
      (k < last →
        (heap' (addr k)).bind BatchQueue.Chunk.next = (heap (addr k)).bind BatchQueue.Chunk.next) ∧
      (heap' (addr k)).bind BatchQueue.Chunk.prev = (heap (addr k)).bind BatchQueue.Chunk.prev)
    (ahead : (heap' (addr last)).bind BatchQueue.Chunk.next = some added)
    (present : (heap' added).isSome)
    (back : (heap' added).bind BatchQueue.Chunk.prev = some (addr last)) :
    Chain heap' (Function.update addr (last + 1) added) first (last + 1) := by
  have old : ∀ k, k ≤ last → Function.update addr (last + 1) added k = addr k := by
    intro k below
    exact Function.update_of_ne (by omega) _ _
  have new : Function.update addr (last + 1) added (last + 1) = added := Function.update_self ..
  refine ⟨?_, ?_, ?_, ?_⟩
  · intro j k j_above j_below k_above k_below eq
    rcases Nat.lt_or_eq_of_le j_below with j_old | rfl <;>
      rcases Nat.lt_or_eq_of_le k_below with k_old | rfl
    · rw [old j (by omega), old k (by omega)] at eq
      exact chain.injective j k j_above (by omega) k_above (by omega) eq
    · rw [old j (by omega), new] at eq
      exact absurd eq (apart j j_above (by omega))
    · rw [new, old k (by omega)] at eq
      exact absurd eq.symm (apart k k_above (by omega))
    · rfl
  · intro k above below
    rcases Nat.lt_or_eq_of_le below with k_old | rfl
    · rw [old k (by omega), (same k above (by omega)).1]
      exact chain.allocated k above (by omega)
    · rw [new]
      exact present
  · intro k above below
    rcases Nat.lt_or_eq_of_le (Nat.le_of_lt_succ below) with inner | rfl
    · rw [old k (by omega), old (k + 1) (by omega), (same k above (by omega)).2.1 inner]
      exact chain.next k above inner
    · rw [old k (by omega), new]
      exact ahead
  · intro k above below
    rcases Nat.lt_or_eq_of_le (Nat.le_of_lt_succ below) with inner | rfl
    · rw [old k (by omega), old (k + 1) (by omega), (same (k + 1) (by omega) (by omega)).2.2]
      exact chain.prev k above inner
    · rw [old k (by omega), new]
      exact back

end Chain

/-! ## The queue in memory -/

/-- Item number `i`. -/
def place (N : Nat) (addr : Nat → Addr) (i : Nat) : Item := ⟨addr (i / N), i % N⟩

/-- The queue holds the items `stored` from number `taken` on, in chunks up to number `last`, while
the reader is about to hand back the chunk `emptied`. -/
structure Layout (N : Nat) (queue : BatchQueue α) (addr : Nat → Addr) (taken last : Nat)
    (stored : List α) (emptied : Option Addr) : Prop where
  chain : Chain queue.heap addr (taken / N) last
  beginChunk : queue.beginChunk = some (addr (taken / N))
  beginPos : queue.beginPos = taken % N
  backChunk : queue.backChunk = some (addr (stored.length / N))
  backPos : queue.backPos = stored.length % N
  endChunk : queue.endChunk = some (addr last)
  endPos : N * last + queue.endPos = stored.length + 1
  endPos_le : queue.endPos ≤ N
  taken_le : taken ≤ stored.length
  /-- The values that are in the queue. -/
  values : ∀ i v, taken ≤ i → stored[i]? = some v → queue.load (some (place N addr i)) = some v
  /-- The chunks that are out of use are allocated and apart from those in use. -/
  outside : ∀ a, queue.spareChunk = some a ∨ emptied = some a →
    (queue.heap a).isSome ∧ ∀ k, taken / N ≤ k → k ≤ last → addr k ≠ a
  /-- They are two different chunks. -/
  distinct : ∀ a, queue.spareChunk = some a → emptied ≠ some a

theorem BatchQueue.update_eq {queue : BatchQueue α} {a : Addr} {c : BatchQueue.Chunk α}
    (here : queue.heap a = some c) (change : BatchQueue.Chunk α → BatchQueue.Chunk α) :
    queue.update (some a) change =
      some { queue with heap := Function.update queue.heap a (some (change c)) } := by
  simp [BatchQueue.update, here]

theorem BatchQueue.load_place {queue : BatchQueue α} {N : Nat} {addr : Nat → Addr} {i : Nat} :
    queue.load (some (place N addr i)) =
      (queue.heap (addr (i / N))).bind fun chunk => chunk.values (i % N) := rfl

/-- A chunk that keeps its values keeps its items. -/
theorem BatchQueue.load_congr {queue queue' : BatchQueue α} {N : Nat} {addr : Nat → Addr} {i : Nat}
    (same : (queue'.heap (addr (i / N))).map BatchQueue.Chunk.values =
      (queue.heap (addr (i / N))).map BatchQueue.Chunk.values) :
    queue'.load (some (place N addr i)) = queue.load (some (place N addr i)) := by
  have through : ∀ chunk : Option (BatchQueue.Chunk α),
      (chunk.bind fun chunk => chunk.values (i % N)) =
        (chunk.map BatchQueue.Chunk.values).bind fun values => values (i % N) := by
    rintro (_ | _) <;> rfl
  rw [load_place, load_place, through, same, ← through]

theorem BatchQueue.link_eq {queue : BatchQueue α} {full added : Addr} {c c' : BatchQueue.Chunk α}
    (ends : queue.endChunk = some full) (here : queue.heap full = some c)
    (ahead : queue.heap added = some c') (apart : full ≠ added) :
    queue.link added = some
      { queue with
        heap := Function.update (Function.update queue.heap full
          (some { c with next := some added })) added (some { c' with prev := some full })
        endChunk := some added
        endPos := 0 } := by
  simp [BatchQueue.link, BatchQueue.update, BatchQueue.chunk, ends, here, ahead, apart, apart.symm,
    Function.update_of_ne]

/-! ## The two halves of `Unpush` -/

/-- `back` moves one position backwards. -/
def BatchQueue.unpushBack (queue : BatchQueue α) (N : Nat) : Option (BatchQueue α) :=
  if queue.backPos ≠ 0 then
    some { queue with backPos := queue.backPos - 1 }
  else do
    let last ← queue.chunk queue.backChunk
    return { queue with backPos := N - 1, backChunk := last.prev }

/-- `end` moves one position backwards, and an obsolete end chunk is freed. -/
def BatchQueue.unpushEnd (queue : BatchQueue α) (N : Nat) : Option (BatchQueue α) :=
  if queue.endPos ≠ 0 then
    return { queue with endPos := queue.endPos - 1 }
  else do
    let last ← queue.chunk queue.endChunk
    let queue := { queue with endPos := N - 1, endChunk := last.prev }
    let last ← queue.chunk queue.endChunk
    let queue ← queue.free last.next
    queue.update queue.endChunk fun chunk => { chunk with next := none }

theorem BatchQueue.unpush_eq (queue : BatchQueue α) (N : Nat) :
    queue.unpush N = (queue.unpushBack N).bind fun queue => queue.unpushEnd N := rfl

section

variable {N first last : Nat} {queue : BatchQueue α} {addr : Nat → Addr}

/-- The back moves to the item before, unless that one is in no linked chunk. -/
theorem Chain.unpushBack (chain : Chain queue.heap addr first last) (positive : 0 < N) {j : Nat}
    (above : first ≤ j / N) (below : j / N ≤ last)
    (backChunk : queue.backChunk = some (addr (j / N))) (backPos : queue.backPos = j % N) :
    ∃ pos chunk, queue.unpushBack N = some { queue with backPos := pos, backChunk := chunk } ∧
      ∀ i, j = i + 1 → first ≤ i / N → pos = i % N ∧ chunk = some (addr (i / N)) := by
  by_cases start : j % N = 0
  · obtain ⟨c, here⟩ := Option.isSome_iff_exists.mp (chain.allocated _ above below)
    refine ⟨N - 1, c.prev, ?_, ?_⟩
    · simp [BatchQueue.unpushBack, backPos, start, backChunk, BatchQueue.chunk, here]
    · rintro i rfl linked
      have border : i % N + 1 = N := by
        by_contra inside
        have small := Nat.mod_lt i positive
        have := (succ_div_mod_of_lt (N := N) (i := i) (by omega)).2
        omega
      have block := (succ_div_mod_of_eq border).1
      rw [block] at here below
      have prev := chain.prev _ linked (by omega)
      rw [here] at prev
      exact ⟨by omega, prev⟩
  · refine ⟨j % N - 1, queue.backChunk, ?_, ?_⟩
    · simp [BatchQueue.unpushBack, backPos, start]
    · rintro i rfl -
      have inside : i % N + 1 < N := by
        by_contra border
        have small := Nat.mod_lt i positive
        exact start (succ_div_mod_of_eq (by omega)).2
      obtain ⟨block, step⟩ := succ_div_mod_of_lt inside
      rw [step, backChunk, block]
      exact ⟨rfl, rfl⟩

/-- The end moves to the item before, and if it was at the start of a chunk then that chunk is gone.
All other chunks keep their values, and those out of the chain are as they were. -/
theorem Chain.unpushEnd (chain : Chain queue.heap addr first last) (positive : 0 < N)
    (endChunk : queue.endChunk = some (addr last)) (room : queue.endPos < N)
    (first_le : first ≤ last) (linked : queue.endPos = 0 → first < last) :
    ∃ heap last' pos, queue.unpushEnd N =
        some { queue with heap := heap, endPos := pos, endChunk := some (addr last') } ∧
      N * last' + pos + 1 = N * last + queue.endPos ∧ pos < N ∧ first ≤ last' ∧ last' ≤ last ∧
      Chain heap addr first last' ∧
      (∀ k, first ≤ k → k ≤ last' → (heap (addr k)).map BatchQueue.Chunk.values =
        (queue.heap (addr k)).map BatchQueue.Chunk.values) ∧
      (∀ k, last' < k → k ≤ last → heap (addr k) = none) ∧
      ∀ a, (∀ k, first ≤ k → k ≤ last → addr k ≠ a) → heap a = queue.heap a := by
  by_cases start : queue.endPos = 0
  · obtain ⟨m, rfl⟩ := Nat.exists_eq_succ_of_ne_zero (Nat.ne_zero_of_lt (linked start))
    have first_m : first ≤ m := Nat.le_of_lt_succ (linked start)
    obtain ⟨c, here⟩ := Option.isSome_iff_exists.mp
      (chain.allocated (m + 1) (by omega) (Nat.le_refl _))
    obtain ⟨c', before⟩ := Option.isSome_iff_exists.mp
      (chain.allocated m first_m (Nat.le_succ m))
    have prev : c.prev = some (addr m) := by
      simpa [here] using chain.prev m first_m (Nat.lt_succ_self m)
    have next : c'.next = some (addr (m + 1)) := by
      simpa [before] using chain.next m first_m (Nat.lt_succ_self m)
    have distinct : addr m ≠ addr (m + 1) := by
      intro same
      have := chain.injective m (m + 1) first_m (Nat.le_succ m) (by omega) (Nat.le_refl _) same
      omega
    obtain ⟨heap, heap_eq⟩ : ∃ heap, heap = Function.update
        (Function.update queue.heap (addr (m + 1)) none) (addr m) (some { c' with next := none }) :=
      ⟨_, rfl⟩
    have atLast : heap (addr m) = some { c' with next := none } := by simp [heap_eq]
    have elsewhere : ∀ a, a ≠ addr m → a ≠ addr (m + 1) → heap a = queue.heap a := by
      intro a notLast notFreed
      simp [heap_eq, Function.update_of_ne notLast, Function.update_of_ne notFreed]
    have links : ∀ k, first ≤ k → k ≤ m → (heap (addr k)).isSome = (queue.heap (addr k)).isSome
        ∧ (k < m →
          (heap (addr k)).bind BatchQueue.Chunk.next =
            (queue.heap (addr k)).bind BatchQueue.Chunk.next)
        ∧ (heap (addr k)).bind BatchQueue.Chunk.prev =
          (queue.heap (addr k)).bind BatchQueue.Chunk.prev
        ∧ (heap (addr k)).map BatchQueue.Chunk.values =
          (queue.heap (addr k)).map BatchQueue.Chunk.values := by
      intro k above below
      by_cases same : addr k = addr m
      · have := chain.injective k m above (by omega) first_m (Nat.le_succ m) same
        rw [same, atLast, before]
        exact ⟨rfl, fun inner => absurd inner (by omega), rfl, rfl⟩
      · have notFreed : addr k ≠ addr (m + 1) := by
          intro freed
          have := chain.injective k (m + 1) above (by omega) (by omega) (Nat.le_refl _) freed
          omega
        rw [elsewhere _ same notFreed]
        exact ⟨rfl, fun _ => rfl, rfl, rfl⟩
    refine ⟨heap, m, N - 1, ?_, ?_, Nat.sub_lt positive Nat.zero_lt_one, first_m, Nat.le_succ m,
      chain.dropLast fun k above below =>
        ⟨(links k above below).1, (links k above below).2.1, (links k above below).2.2.1⟩,
      fun k above below => (links k above below).2.2.2, ?_, ?_⟩
    · simp [BatchQueue.unpushEnd, start, endChunk, BatchQueue.chunk, here, prev, before, next,
        BatchQueue.free, BatchQueue.update, heap_eq, Function.update_of_ne distinct]
    · rw [start, Nat.mul_succ]
      omega
    · intro k above below
      obtain rfl : k = m + 1 := by omega
      simp [heap_eq, Function.update_of_ne distinct.symm]
    · exact fun a apart => elsewhere a (apart m first_m (Nat.le_succ m)).symm
        (apart (m + 1) (by omega) (Nat.le_refl _)).symm
  · refine ⟨queue.heap, last, queue.endPos - 1, ?_, by omega, by omega, first_le, Nat.le_refl _,
      chain, fun _ _ _ => rfl, fun k above below => absurd above (by omega), fun _ _ => rfl⟩
    simp [BatchQueue.unpushEnd, start, endChunk]

end

/-! ## What each operation does to the queue in memory -/

namespace Layout

variable {N : Nat} {queue : BatchQueue α} {addr : Nat → Addr} {taken last : Nat} {stored : List α}
  {emptied : Option Addr}

theorem front_eq (layout : Layout N queue addr taken last stored emptied) :
    queue.front = some (place N addr taken) := by
  rw [BatchQueue.front, layout.beginChunk, layout.beginPos]
  rfl

theorem back_eq (layout : Layout N queue addr taken last stored emptied) :
    queue.back = some (place N addr stored.length) := by
  rw [BatchQueue.back, layout.backChunk, layout.backPos]
  rfl

/-- The item behind the back is where the end is, unless the last chunk is full. -/
theorem end_div_mod (layout : Layout N queue addr taken last stored emptied)
    (room : queue.endPos < N) :
    (stored.length + 1) / N = last ∧ (stored.length + 1) % N = queue.endPos :=
  div_mod_of_eq layout.endPos room

section

variable (positive : 0 < N)

include positive

theorem back_le (layout : Layout N queue addr taken last stored emptied) :
    stored.length / N ≤ last := by
  have ends := layout.endPos
  have := layout.endPos_le
  rw [← Nat.lt_succ_iff, Nat.div_lt_iff_lt_mul positive, Nat.succ_mul, Nat.mul_comm]
  omega

theorem first_le (layout : Layout N queue addr taken last stored emptied) : taken / N ≤ last :=
  Nat.le_trans (Nat.div_le_div_right layout.taken_le) (layout.back_le positive)

theorem place_update (layout : Layout N queue addr taken last stored emptied) {added : Addr}
    {i : Nat} (below : i ≤ stored.length) :
    place N (Function.update addr (last + 1) added) i = place N addr i := by
  have := Nat.le_trans (Nat.div_le_div_right (c := N) below) (layout.back_le positive)
  rw [place, place, Function.update_of_ne (by omega)]

/-- Different items of the queue are at different places. -/
theorem place_inj (layout : Layout N queue addr taken last stored emptied) {i j : Nat}
    (i_above : taken ≤ i) (i_below : i ≤ stored.length) (j_above : taken ≤ j)
    (j_below : j ≤ stored.length) : place N addr i = place N addr j ↔ i = j := by
  constructor
  · intro same
    simp only [place, Item.mk.injEq] at same
    have back := layout.back_le positive
    have block := layout.chain.injective (i / N) (j / N) (Nat.div_le_div_right i_above)
      (Nat.le_trans (Nat.div_le_div_right i_below) back) (Nat.div_le_div_right j_above)
      (Nat.le_trans (Nat.div_le_div_right j_below) back) same.1
    exact eq_of_div_mod_eq block same.2
  · rintro rfl
    rfl

/-- The queue as it is set up, with one item and nothing in it. -/
theorem init (fresh : Addr) :
    Layout N (BatchQueue.init (α := α) fresh).push (fun _ => fresh) 0 0 [] none where
  chain :=
    { injective := fun j k _ j_below _ k_below _ => by omega
      allocated := fun k _ _ => by simp [BatchQueue.init, BatchQueue.push]
      next := fun k _ below => absurd below (Nat.not_lt_zero k)
      prev := fun k _ below => absurd below (Nat.not_lt_zero k) }
  beginChunk := rfl
  beginPos := (Nat.zero_mod N).symm
  backChunk := rfl
  backPos := (Nat.zero_mod N).symm
  endChunk := rfl
  endPos := by simp [BatchQueue.init, BatchQueue.push]
  endPos_le := positive
  taken_le := Nat.le_refl 0
  values := fun i v _ stored_v => by simp at stored_v
  outside := fun a out => by simp [BatchQueue.init, BatchQueue.push] at out
  distinct := fun a spare => by simp [BatchQueue.init, BatchQueue.push] at spare

/-- A value is stored at the back, and the back moves on. -/
theorem store_push (layout : Layout N queue addr taken last stored emptied)
    (room : queue.endPos < N) (value : α) :
    ∃ queue', queue.store queue.back value = some queue' ∧ queue'.endPos = queue.endPos ∧
      queue'.spareChunk = queue.spareChunk ∧ queue'.back = queue.back ∧
      Layout N queue'.push addr taken last (stored ++ [value]) emptied := by
  have firstBack : taken / N ≤ stored.length / N := Nat.div_le_div_right layout.taken_le
  have back := layout.back_le positive
  obtain ⟨nextBlock, nextPlace⟩ := layout.end_div_mod room
  obtain ⟨chunk, here⟩ :=
    Option.isSome_iff_exists.mp (layout.chain.allocated _ firstBack back)
  obtain ⟨heap, heap_eq⟩ : ∃ heap, heap = Function.update queue.heap (addr (stored.length / N))
      (some { chunk with
        values := Function.update chunk.values (stored.length % N) (some value) }) := ⟨_, rfl⟩
  have stored_eq : queue.store queue.back value = some { queue with heap := heap } := by
    rw [layout.back_eq, BatchQueue.store, heap_eq]
    exact BatchQueue.update_eq here _
  refine ⟨_, stored_eq, rfl, rfl, rfl, ?_⟩
  have sameLinks : ∀ a, (heap a).isSome = (queue.heap a).isSome ∧
      (heap a).bind BatchQueue.Chunk.next = (queue.heap a).bind BatchQueue.Chunk.next ∧
      (heap a).bind BatchQueue.Chunk.prev = (queue.heap a).bind BatchQueue.Chunk.prev := by
    intro a
    by_cases same : a = addr (stored.length / N)
    · simp [heap_eq, same, here]
    · simp [heap_eq, Function.update_of_ne same]
  refine
    { chain := layout.chain.congr fun k _ _ => sameLinks (addr k)
      beginChunk := layout.beginChunk
      beginPos := layout.beginPos
      backChunk := ?_
      backPos := ?_
      endChunk := layout.endChunk
      endPos := ?_
      endPos_le := room
      taken_le := by have := layout.taken_le; simp; omega
      values := ?_
      outside := fun a out =>
        ⟨(sameLinks a).1.trans (layout.outside a out).1, (layout.outside a out).2⟩
      distinct := layout.distinct }
  · rw [List.length_append, List.length_singleton, nextBlock]
    exact layout.endChunk
  · rw [List.length_append, List.length_singleton, nextPlace]
    rfl
  · have := layout.endPos
    simp only [BatchQueue.push, List.length_append, List.length_singleton]
    omega
  · intro i v above stored_v
    rcases Nat.lt_or_ge i stored.length with old | new
    · rw [List.getElem?_append_left old] at stored_v
      have before := layout.values i v above stored_v
      rw [BatchQueue.load_place] at before ⊢
      by_cases sameChunk : addr (i / N) = addr (stored.length / N)
      · have block := layout.chain.injective _ _ (Nat.div_le_div_right above)
          (Nat.le_trans (Nat.div_le_div_right (Nat.le_of_lt old)) back) firstBack back sameChunk
        have otherPlace : i % N ≠ stored.length % N := by
          intro samePlace
          have := eq_of_div_mod_eq block samePlace
          omega
        rw [sameChunk, here] at before
        simpa [BatchQueue.push, heap_eq, sameChunk, Function.update_of_ne otherPlace] using before
      · simpa [BatchQueue.push, heap_eq, Function.update_of_ne sameChunk] using before
    · obtain ⟨bound, _⟩ := List.getElem?_eq_some_iff.mp stored_v
      rw [List.length_append, List.length_singleton] at bound
      obtain rfl : i = stored.length := by omega
      rw [List.getElem?_concat_length, Option.some_inj] at stored_v
      rw [BatchQueue.load_place]
      simp [BatchQueue.push, heap_eq, stored_v]

/-- A chunk that is not in use is appended to the full last chunk. -/
theorem link (layout : Layout N queue addr taken last stored emptied) (full : queue.endPos = N)
    (spare : queue.spareChunk = none) {added : Addr} (present : (queue.heap added).isSome)
    (apart : ∀ k, taken / N ≤ k → k ≤ last → addr k ≠ added) (alone : emptied ≠ some added) :
    ∃ queue', queue.link added = some queue' ∧ queue'.endPos = 0 ∧ queue'.spareChunk = none ∧
      Layout N queue' (Function.update addr (last + 1) added) taken (last + 1) stored emptied := by
  have first := layout.first_le positive
  have back := layout.back_le positive
  obtain ⟨c, here⟩ :=
    Option.isSome_iff_exists.mp (layout.chain.allocated last first (Nat.le_refl _))
  obtain ⟨c', ahead⟩ := Option.isSome_iff_exists.mp present
  have lastApart := apart last first (Nat.le_refl _)
  obtain ⟨heap, heap_eq⟩ : ∃ heap, heap = Function.update (Function.update queue.heap (addr last)
      (some { c with next := some added })) added (some { c' with prev := some (addr last) }) :=
    ⟨_, rfl⟩
  have atAdded : heap added = some { c' with prev := some (addr last) } := by simp [heap_eq]
  have atLast : heap (addr last) = some { c with next := some added } := by
    simp [heap_eq, Function.update_of_ne lastApart]
  have elsewhere : ∀ a, a ≠ added → a ≠ addr last → heap a = queue.heap a := by
    intro a notAdded notLast
    simp [heap_eq, Function.update_of_ne notAdded, Function.update_of_ne notLast]
  have old : ∀ k, k ≤ last → Function.update addr (last + 1) added k = addr k := by
    intro k below
    exact Function.update_of_ne (by omega) _ _
  refine ⟨_, BatchQueue.link_eq layout.endChunk here ahead lastApart, rfl, spare, ?_⟩
  rw [← heap_eq]
  have links : ∀ k, taken / N ≤ k → k ≤ last → (heap (addr k)).isSome = (queue.heap (addr k)).isSome
      ∧ (k < last →
        (heap (addr k)).bind BatchQueue.Chunk.next =
          (queue.heap (addr k)).bind BatchQueue.Chunk.next)
      ∧ (heap (addr k)).bind BatchQueue.Chunk.prev =
        (queue.heap (addr k)).bind BatchQueue.Chunk.prev
      ∧ (heap (addr k)).map BatchQueue.Chunk.values =
        (queue.heap (addr k)).map BatchQueue.Chunk.values := by
    intro k above below
    by_cases same : addr k = addr last
    · have := layout.chain.injective k last above below first (Nat.le_refl _) same
      rw [same, atLast, here]
      exact ⟨rfl, fun inner => absurd inner (by omega), rfl, rfl⟩
    · rw [elsewhere _ (apart k above below) same]
      exact ⟨rfl, fun _ => rfl, rfl, rfl⟩
  have chain : Chain heap (Function.update addr (last + 1) added) (taken / N) (last + 1) :=
    layout.chain.append apart
      (fun k above below => ⟨(links k above below).1, (links k above below).2.1,
        (links k above below).2.2.1⟩)
      (by rw [atLast]; rfl) (by rw [atAdded]; rfl) (by rw [atAdded]; rfl)
  refine
    { chain := chain
      beginChunk := (old _ first).symm ▸ layout.beginChunk
      beginPos := layout.beginPos
      backChunk := by rw [old _ back]; exact layout.backChunk
      backPos := layout.backPos
      endChunk := by rw [Function.update_self]
      endPos := ?_
      endPos_le := Nat.zero_le N
      taken_le := layout.taken_le
      values := ?_
      outside := ?_
      distinct := layout.distinct }
  · have := layout.endPos
    rw [full] at this
    simpa [Nat.mul_add] using this
  · intro i v above stored_v
    obtain ⟨bound, _⟩ := List.getElem?_eq_some_iff.mp stored_v
    have below : i / N ≤ last := Nat.le_trans (Nat.div_le_div_right (Nat.le_of_lt bound)) back
    rw [layout.place_update positive (Nat.le_of_lt bound), ← layout.values i v above stored_v]
    exact BatchQueue.load_congr (links _ (Nat.div_le_div_right above) below).2.2.2
  · intro a out
    have isEmptied : emptied = some a := by simpa [spare] using out
    obtain ⟨allocated, clear⟩ := layout.outside a (Or.inr isEmptied)
    have notAdded : a ≠ added := by
      rintro rfl
      exact alone isEmptied
    refine ⟨(congrArg Option.isSome
        (elsewhere a notAdded (clear last first (Nat.le_refl _)).symm)).trans
      allocated, ?_⟩
    intro k above below
    rcases Nat.lt_or_eq_of_le below with inner | rfl
    · rw [old k (by omega)]
      exact clear k above (by omega)
    · rw [Function.update_self]
      exact notAdded.symm

/-- What happens to chunks out of use does not touch the items. -/
theorem reheap (layout : Layout N queue addr taken last stored emptied)
    {heap : Addr → Option (BatchQueue.Chunk α)} {spare emptied' : Option Addr}
    (kept : ∀ k, taken / N ≤ k → k ≤ last → heap (addr k) = queue.heap (addr k))
    (outside : ∀ a, spare = some a ∨ emptied' = some a →
      (heap a).isSome ∧ ∀ k, taken / N ≤ k → k ≤ last → addr k ≠ a)
    (distinct : ∀ a, spare = some a → emptied' ≠ some a) :
    Layout N { queue with heap := heap, spareChunk := spare } addr taken last stored emptied' :=
  have chain : Chain heap addr (taken / N) last := layout.chain.congr fun k above below => by
    rw [kept k above below]
    exact ⟨rfl, rfl, rfl⟩
  { layout with
    chain := chain
    values := by
      intro i v above stored_v
      obtain ⟨bound, _⟩ := List.getElem?_eq_some_iff.mp stored_v
      rw [← layout.values i v above stored_v]
      refine BatchQueue.load_congr (congrArg _ (kept _ (Nat.div_le_div_right above) ?_))
      exact Nat.le_trans (Nat.div_le_div_right (Nat.le_of_lt bound)) (layout.back_le positive)
    outside := outside
    distinct := distinct }

/-- The last chunk is full, and another one is appended. -/
theorem turnover (layout : Layout N queue addr taken last stored emptied) (full : queue.endPos = N)
    {fresh : Addr} (unallocated : queue.heap fresh = none) :
    ∃ queue', queue.turnover fresh = some queue' ∧ queue'.endPos = 0 ∧
      queue'.spareChunk = none ∧
      Layout N queue' (Function.update addr (last + 1) (queue.spareChunk.getD fresh)) taken
        (last + 1) stored emptied := by
  cases spare : queue.spareChunk with
  | some added =>
      obtain ⟨present, apart⟩ := layout.outside added (Or.inl spare)
      have ready : Layout N { queue with spareChunk := none } addr taken last stored emptied := by
        refine layout.reheap positive (fun _ _ _ => rfl) ?_ nofun
        rintro a (isSpare | isEmptied)
        · simp at isSpare
        · exact layout.outside a (Or.inr isEmptied)
      rw [BatchQueue.turnover, spare]
      exact ready.link positive full rfl present apart (layout.distinct added spare)
  | none =>
      have other : ∀ a, (queue.heap a).isSome → a ≠ fresh := by
        rintro a allocated rfl
        simp [unallocated] at allocated
      have inUse : ∀ k, taken / N ≤ k → k ≤ last → addr k ≠ fresh :=
        fun k above below => other _ (layout.chain.allocated k above below)
      have ready : Layout N (queue.malloc fresh) addr taken last stored emptied := by
        refine layout.reheap positive ?_ ?_ layout.distinct
        · exact fun k above below => Function.update_of_ne (inUse k above below) _ _
        · intro a out
          obtain ⟨allocated, apart⟩ := layout.outside a out
          exact ⟨by rwa [Function.update_of_ne (other a allocated)], apart⟩
      rw [BatchQueue.turnover, spare]
      refine ready.link positive full spare (by simp [BatchQueue.malloc]) inUse fun isEmptied => ?_
      exact other fresh (layout.outside fresh (Or.inr isEmptied)).1 rfl

theorem unpush {value : α} (layout : Layout N queue addr taken last (stored ++ [value]) emptied)
    (room : queue.endPos < N) (held : taken ≤ stored.length) :
    ∃ queue' last', queue.unpush N = some queue' ∧ queue'.endPos < N ∧
      Layout N queue' addr taken last' stored emptied ∧ queue'.load queue'.back = some value := by
  have length : (stored ++ [value]).length = stored.length + 1 := by simp
  have above : taken / N ≤ (stored.length + 1) / N := Nat.div_le_div_right (by omega)
  have within : taken / N ≤ stored.length / N := Nat.div_le_div_right held
  have below := layout.back_le positive
  have ends := layout.endPos
  have backChunk := layout.backChunk
  have backPos := layout.backPos
  rw [length] at below ends backChunk backPos
  obtain ⟨backPos', backChunk', moved, there⟩ :=
    layout.chain.unpushBack positive above below backChunk backPos
  obtain ⟨rfl, rfl⟩ := there stored.length rfl within
  have linked : queue.endPos = 0 → taken / N < last := by
    intro start
    rw [Nat.div_lt_iff_lt_mul positive, Nat.mul_comm]
    omega
  let moved' : BatchQueue α :=
    { queue with backPos := stored.length % N, backChunk := some (addr (stored.length / N)) }
  have chain : Chain moved'.heap addr (taken / N) last := layout.chain
  obtain ⟨heap, last', endPos', shrunk, ends', room', first, last'_le, chain', values, -, apart⟩ :=
    chain.unpushEnd positive layout.endChunk room (layout.first_le positive) linked
  have endPos : N * last' + endPos' = stored.length + 1 := by
    have : moved'.endPos = queue.endPos := rfl
    omega
  have block : stored.length / N ≤ last' := by
    rw [← (div_mod_of_eq endPos room').1]
    exact Nat.div_le_div_right (Nat.le_succ _)
  let queue' := { moved' with heap := heap, endPos := endPos', endChunk := some (addr last') }
  have kept : ∀ i v, taken ≤ i → (stored ++ [value])[i]? = some v →
      queue'.load (some (place N addr i)) = some v := by
    intro i v held_i stored_v
    obtain ⟨bound, _⟩ := List.getElem?_eq_some_iff.mp stored_v
    rw [← layout.values i v held_i stored_v]
    exact BatchQueue.load_congr (values _ (Nat.div_le_div_right held_i)
      (Nat.le_trans (Nat.div_le_div_right (by omega)) block))
  refine ⟨queue', last', ?_, room', ?_, kept stored.length value held (by simp)⟩
  · rw [BatchQueue.unpush_eq, moved]
    exact shrunk
  · exact
      { chain := chain'
        beginChunk := layout.beginChunk
        beginPos := layout.beginPos
        backChunk := rfl
        backPos := rfl
        endChunk := rfl
        endPos := endPos
        endPos_le := Nat.le_of_lt room'
        taken_le := held
        values := by
          intro i v held_i stored_v
          obtain ⟨bound, _⟩ := List.getElem?_eq_some_iff.mp stored_v
          exact kept i v held_i (by rwa [List.getElem?_append_left bound])
        outside := by
          intro a out
          obtain ⟨allocated, apart_a⟩ := layout.outside a out
          refine ⟨?_, fun k above below => apart_a k above (by omega)⟩
          have same := apart a apart_a
          exact (congrArg Option.isSome same).trans allocated
        distinct := layout.distinct }

theorem pop (layout : Layout N queue addr taken last stored none) (filled : taken < stored.length) :
    ∃ queue' emptied', queue.pop N = some (queue', emptied') ∧ queue'.endPos = queue.endPos ∧
      Layout N queue' addr (taken + 1) last stored emptied' := by
  have back := layout.back_le positive
  have within : (taken + 1) / N ≤ last := Nat.le_trans (Nat.div_le_div_right filled) back
  by_cases border : taken % N + 1 = N
  · obtain ⟨block, start⟩ := succ_div_mod_of_eq border
    have first : taken / N < last := by omega
    obtain ⟨c, here⟩ := Option.isSome_iff_exists.mp
      (layout.chain.allocated _ (Nat.le_refl _) (Nat.le_of_lt first))
    have next : c.next = some (addr (taken / N + 1)) := by
      simpa [here] using layout.chain.next _ (Nat.le_refl _) first
    obtain ⟨c', ahead⟩ := Option.isSome_iff_exists.mp
      (layout.chain.allocated (taken / N + 1) (Nat.le_succ _) first)
    obtain ⟨heap, heap_eq⟩ : ∃ heap, heap = Function.update queue.heap (addr (taken / N + 1))
        (some { c' with prev := none }) := ⟨_, rfl⟩
    have atNext : heap (addr (taken / N + 1)) = some { c' with prev := none } := by simp [heap_eq]
    have elsewhere : ∀ a, a ≠ addr (taken / N + 1) → heap a = queue.heap a := by
      intro a other
      simp [heap_eq, Function.update_of_ne other]
    have allocated : ∀ a, (queue.heap a).isSome → (heap a).isSome := by
      intro a before
      by_cases same : a = addr (taken / N + 1)
      · simp [same, atNext]
      · rwa [elsewhere a same]
    have popped : queue.pop N = some ({ queue with
        heap := heap, beginChunk := some (addr (taken / N + 1)), beginPos := 0 },
        some (addr (taken / N))) := by
      simp [BatchQueue.pop, layout.beginPos, border, layout.beginChunk, here, next,
        BatchQueue.update, ahead, heap_eq]
    refine ⟨_, _, popped, rfl, ?_⟩
    have links : ∀ k, taken / N < k → k ≤ last →
        (heap (addr k)).isSome = (queue.heap (addr k)).isSome
        ∧ (heap (addr k)).bind BatchQueue.Chunk.next =
          (queue.heap (addr k)).bind BatchQueue.Chunk.next
        ∧ (taken / N + 1 < k →
          (heap (addr k)).bind BatchQueue.Chunk.prev =
            (queue.heap (addr k)).bind BatchQueue.Chunk.prev)
        ∧ (heap (addr k)).map BatchQueue.Chunk.values =
          (queue.heap (addr k)).map BatchQueue.Chunk.values := by
      intro k above below
      by_cases same : addr k = addr (taken / N + 1)
      · have := layout.chain.injective k _ (Nat.le_of_lt above) below (Nat.le_succ _) first same
        rw [same, atNext, ahead]
        exact ⟨rfl, rfl, fun later => absurd later (by omega), rfl⟩
      · rw [elsewhere _ same]
        exact ⟨rfl, rfl, fun _ => rfl, rfl⟩
    have chain : Chain heap addr (taken / N + 1) last :=
      layout.chain.dropFirst fun k above below =>
        ⟨(links k above below).1, (links k above below).2.1, (links k above below).2.2.1⟩
    exact
      { layout with
        chain := block ▸ chain
        beginChunk := by rw [block]
        beginPos := start.symm
        taken_le := filled
        values := by
          intro i v above stored_v
          obtain ⟨bound, _⟩ := List.getElem?_eq_some_iff.mp stored_v
          have laterBlock : taken / N < i / N := by
            have := Nat.div_le_div_right (c := N) above
            omega
          rw [← layout.values i v (by omega) stored_v]
          exact BatchQueue.load_congr (links _ laterBlock
            (Nat.le_trans (Nat.div_le_div_right (Nat.le_of_lt bound)) back)).2.2.2
        outside := by
          rintro a (isSpare | isEmptied)
          · obtain ⟨before, apart⟩ := layout.outside a (Or.inl isSpare)
            exact ⟨allocated a before, fun k above below => apart k (by omega) below⟩
          · obtain rfl := Option.some_inj.mp isEmptied
            refine ⟨allocated _ (by simp [here]), fun k above below same => ?_⟩
            have := layout.chain.injective k _ (by omega) below (Nat.le_refl _)
              (Nat.le_of_lt first) same
            omega
        distinct := by
          rintro a isSpare isEmptied
          obtain rfl := Option.some_inj.mp isEmptied
          exact (layout.outside _ (Or.inl isSpare)).2 _ (Nat.le_refl _) (Nat.le_of_lt first) rfl }
  · have inside : taken % N + 1 < N := by
      have := Nat.mod_lt taken positive
      omega
    obtain ⟨block, step⟩ := succ_div_mod_of_lt inside
    have popped : queue.pop N = some ({ queue with beginPos := taken % N + 1 }, none) := by
      simp [BatchQueue.pop, layout.beginPos, border]
    refine ⟨_, _, popped, rfl, ?_⟩
    exact
      { layout with
        chain := block.symm ▸ layout.chain
        beginChunk := block.symm ▸ layout.beginChunk
        beginPos := step.symm
        taken_le := filled
        values := fun i v above => layout.values i v (by omega)
        outside := fun a out => by rw [block]; exact layout.outside a out }

theorem recycle {a : Addr} (layout : Layout N queue addr taken last stored (some a)) :
    ∃ queue', queue.recycle a = some queue' ∧ queue'.endPos = queue.endPos ∧
      Layout N queue' addr taken last stored none := by
  obtain ⟨allocated, apart⟩ := layout.outside a (Or.inr rfl)
  cases spare : queue.spareChunk with
  | none =>
      refine ⟨{ queue with spareChunk := some a }, by rw [BatchQueue.recycle, spare]; rfl, rfl, ?_⟩
      refine layout.reheap positive (fun _ _ _ => rfl) ?_ (fun _ _ => nofun)
      intro b out
      obtain rfl : a = b := by simpa using out
      exact ⟨allocated, apart⟩
  | some old =>
      obtain ⟨oldAllocated, oldApart⟩ := layout.outside old (Or.inl spare)
      obtain ⟨c, here⟩ := Option.isSome_iff_exists.mp oldAllocated
      have distinct : a ≠ old := fun same => layout.distinct old spare (by rw [same])
      refine ⟨{ queue with
        heap := Function.update queue.heap old none, spareChunk := some a }, ?_, rfl, ?_⟩
      · simp [BatchQueue.recycle, spare, BatchQueue.free, here]
      · refine layout.reheap positive ?_ ?_ (fun _ _ => nofun)
        · exact fun k above below => Function.update_of_ne (oldApart k above below) _ _
        · intro b out
          obtain rfl : a = b := by simpa using out
          exact ⟨by rwa [Function.update_of_ne distinct], apart⟩

end

end Layout

end FlashForwarder
