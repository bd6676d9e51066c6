import FlashForwarder.Compressor.WireFormat
import Mathlib.Algebra.BigOperators.Group.Finset.Basic
import Mathlib.Algebra.BigOperators.Ring.Finset

/-!
# Readers that know the size

`ReadVarint32Safe` and `ReadVarint64Safe` are the readers of the wire format with a test in front of
each byte.  All four accept just the base-128 numbers that end within their limit, and the two that
know the size only those that end inside the buffer.
-/

namespace FlashForwarder

open Varint

namespace WireFormat

/-! ## The readers -/

/-- The unrolled lines of a reader that knows the size: `size <= 0` is tested before the first byte,
and before every other one whether `size` is the number of bytes taken. -/
def readUnrolledSafe (buffer : Nat → UInt8) (size : Int) : List UInt32 → Nat → UInt32 → Unrolled
  | [], taken, part => .more part taken
  | shift :: shifts, taken, part =>
      if (if taken = 0 then size ≤ 0 else size = taken) then .short taken
      else
        let b := (buffer taken).toUInt32
        let part := part + (b <<< shift)
        if b &&& 0x80 = 0 then
          .done part (taken + 1)
        else
          readUnrolledSafe buffer size shifts (taken + 1) (part - (0x80 <<< shift))

/-- `ReadVarint32Safe` -/
def readVarint32Safe (buffer : Nat → UInt8) (size : Int) : VarintRead UInt32 :=
  match readUnrolledSafe buffer size [0, 7, 14, 21, 28] 0 0 with
  | .done result taken => ⟨taken, some result, taken⟩
  | .more _ taken => ⟨-1, none, taken⟩
  | .short taken => ⟨-1, none, taken⟩

/-- `ReadVarint64Safe` -/
def readVarint64Safe (buffer : Nat → UInt8) (size : Int) : VarintRead UInt64 :=
  match readUnrolledSafe buffer size [0, 7, 14, 21] 0 0 with
  | .done part0 taken => ⟨taken, some (joinParts part0 0 0), taken⟩
  | .short taken => ⟨-1, none, taken⟩
  | .more part0 taken =>
      match readUnrolledSafe buffer size [0, 7, 14, 21] taken 0 with
      | .done part1 taken => ⟨taken, some (joinParts part0 part1 0), taken⟩
      | .short taken => ⟨-1, none, taken⟩
      | .more part1 taken =>
          match readUnrolledSafe buffer size [0, 7] taken 0 with
          | .done part2 taken => ⟨taken, some (joinParts part0 part1 part2), taken⟩
          | .short taken => ⟨-1, none, taken⟩
          | .more _ taken => ⟨-1, none, taken⟩

/-- The bytes inside the size. -/
def bounded (buffer : Nat → UInt8) (size : Int) (index : Nat) : Option UInt8 :=
  if (index : Int) < size then some (buffer index) else none

theorem bounded_of_lt {buffer : Nat → UInt8} {size : Int} {index : Nat}
    (inside : (index : Int) < size) : bounded buffer size index = some (buffer index) :=
  if_pos inside

theorem bounded_eq_some {buffer : Nat → UInt8} {size : Int} {index : Nat} {byte : UInt8} :
    bounded buffer size index = some byte ↔ (index : Int) < size ∧ buffer index = byte := by
  rw [bounded, Option.ite_none_right_eq_some, Option.some_inj]

theorem readUnrolledSafe_eq (buffer : Nat → UInt8) (size : Int) (shifts : List UInt32)
    {taken : Nat} (within : taken = 0 ∨ (taken : Int) ≤ size) (part : UInt32) :
    readUnrolledSafe buffer size shifts taken part =
      readUnrolled (bounded buffer size) shifts taken part := by
  induction shifts generalizing taken part with
  | nil => rfl
  | cons shift shifts ih =>
      rw [readUnrolledSafe, readUnrolled]
      by_cases inside : (taken : Int) < size
      · have more : ¬(if taken = 0 then size ≤ 0 else size = taken) := by
          split <;> omega
        rw [if_neg more, bounded_of_lt inside]
        dsimp only
        rw [ih (Or.inr (by omega))]
      · have past : if taken = 0 then size ≤ 0 else size = taken := by
          split <;> omega
        rw [if_pos past, bounded, if_neg inside]

/-- Lines that go on have taken bytes inside the size. -/
theorem within_of_more {buffer : Nat → UInt8} {size : Int} {shifts : List UInt32}
    {taken last : Nat} {part rest : UInt32} (within : taken = 0 ∨ (taken : Int) ≤ size)
    (more : readUnrolled (bounded buffer size) shifts taken part = .more rest last) :
    last = 0 ∨ (last : Int) ≤ size := by
  induction shifts generalizing taken part with
  | nil =>
      cases more
      exact within
  | cons shift shifts ih =>
      rw [readUnrolled] at more
      by_cases inside : (taken : Int) < size
      · rw [bounded_of_lt inside] at more
        dsimp only at more
        split at more
        · exact absurd more (by simp)
        · exact ih (Or.inr (by omega)) more
      · rw [bounded, if_neg inside] at more
        exact absurd more (by simp)

theorem readVarint32Safe_eq (buffer : Nat → UInt8) (size : Int) :
    readVarint32Safe buffer size = readVarint32 (bounded buffer size) := by
  have same := fun part => readUnrolledSafe_eq buffer size [0, 7, 14, 21, 28] (Or.inl rfl) part
  cases lines : readUnrolled (bounded buffer size) [0, 7, 14, 21, 28] 0 0 <;>
    simp only [readVarint32Safe, readVarint32, same, lines]

theorem readVarint64Safe_eq (buffer : Nat → UInt8) (size : Int) :
    readVarint64Safe buffer size = readVarint64 (bounded buffer size) := by
  have same := fun part => readUnrolledSafe_eq buffer size [0, 7, 14, 21] (Or.inl rfl) part
  cases first : readUnrolled (bounded buffer size) [0, 7, 14, 21] 0 0 with
  | done part0 taken => simp only [readVarint64Safe, readVarint64, same, first]
  | short taken => simp only [readVarint64Safe, readVarint64, same, first]
  | more part0 taken =>
      have within := within_of_more (Or.inl rfl) first
      have same' := fun part => readUnrolledSafe_eq buffer size [0, 7, 14, 21] within part
      cases second : readUnrolled (bounded buffer size) [0, 7, 14, 21] taken 0 with
      | done part1 taken => simp only [readVarint64Safe, readVarint64, same, first, same', second]
      | short taken => simp only [readVarint64Safe, readVarint64, same, first, same', second]
      | more part1 taken =>
          have within' := within_of_more within second
          have same'' := fun part => readUnrolledSafe_eq buffer size [0, 7] within' part
          cases third : readUnrolled (bounded buffer size) [0, 7] taken 0 <;>
            simp only [readVarint64Safe, readVarint64, same, first, same', second, same'', third]

/-! ## The grammar -/

/-- The number that starts the buffer ends with byte `n`: each byte before has its top bit set. -/
def EndsAt (buffer : Nat → UInt8) (n : Nat) : Prop :=
  0 < n ∧ (∀ index, index + 1 < n → 128 ≤ (buffer index).toNat) ∧ (buffer (n - 1)).toNat < 128

/-- The sum of the low seven bits of `n` bytes, each at its weight. -/
def number (buffer : Nat → UInt8) (n : Nat) : Nat :=
  ∑ index ∈ Finset.range n, (buffer index).toNat % 128 * 128 ^ index

variable {buffer : Nat → UInt8} {size : Int}

theorem EndsAt.unique {n n' : Nat} (ends : EndsAt buffer n) (ends' : EndsAt buffer n') :
    n = n' := by
  obtain ⟨positive, marked, clear⟩ := ends
  obtain ⟨positive', marked', clear'⟩ := ends'
  rcases Nat.lt_trichotomy n n' with less | same | more
  · have := marked' (n - 1) (by omega)
    omega
  · exact same
  · have := marked (n' - 1) (by omega)
    omega

/-- Within a limit the number ends, or all bytes have their top bit set. -/
theorem endsAt_or_marked (buffer : Nat → UInt8) (limit : Nat) :
    (∃ n ≤ limit, EndsAt buffer n) ∨ ∀ index < limit, 128 ≤ (buffer index).toNat := by
  induction limit with
  | zero => exact Or.inr (by simp)
  | succ limit ih =>
      rcases ih with ⟨n, within, ends⟩ | marked
      · exact Or.inl ⟨n, by omega, ends⟩
      · by_cases clear : (buffer limit).toNat < 128
        · exact Or.inl ⟨limit + 1, le_rfl, by omega, fun index bound => marked index (by omega),
            by simpa using clear⟩
        · refine Or.inr fun index bound => ?_
          rcases Nat.lt_succ_iff_lt_or_eq.mp bound with earlier | rfl
          · exact marked index earlier
          · omega

theorem number_succ (buffer : Nat → UInt8) (n : Nat) :
    number buffer (n + 1) =
      (buffer 0).toNat % 128 + 128 * number (fun index => buffer (index + 1)) n := by
  rw [number, number, Finset.sum_range_succ', Finset.mul_sum, Nat.add_comm]
  congr 1
  · simp
  · refine Finset.sum_congr rfl fun index _ => ?_
    rw [Nat.pow_succ]
    ring

/-- The bytes up to the one that ends the number are a run with the number as its value. -/
theorem EndsAt.isVarint {n : Nat} (ends : EndsAt buffer n) :
    IsVarint ((List.range n).map buffer) (number buffer n) := by
  obtain ⟨positive, marked, clear⟩ := ends
  induction n generalizing buffer with
  | zero => exact absurd positive (by simp)
  | succ n ih =>
      rw [number_succ]
      have low := (buffer 0).toNat_lt
      cases n with
      | zero =>
          have small : (buffer 0).toNat < 128 := by simpa using clear
          rw [Nat.mod_eq_of_lt small]
          simpa [number] using IsVarint.last small
      | succ n =>
          have high : 128 ≤ (buffer 0).toNat := marked 0 (by omega)
          have rest : IsVarint ((List.range (n + 1)).map fun index => buffer (index + 1))
              (number (fun index => buffer (index + 1)) (n + 1)) :=
            ih (by omega) (fun index bound => marked (index + 1) (by omega)) (by simpa using clear)
          have run := IsVarint.more high rest
          rw [List.range_succ_eq_map, List.map_cons, List.map_map]
          rw [show (buffer 0).toNat % 128 = (buffer 0).toNat - 128 by omega]
          exact run

/-! ## What is accepted -/

/-- A reader accepts just the numbers that end within the limit and the size, and stores their
value, cut to its own type. -/
structure ReadsExactly {α : Type} (cut : Nat → α) (limit : Nat) (buffer : Nat → UInt8) (size : Int)
    (read : VarintRead α) : Prop where
  accepted : ∀ n : Nat, 0 < n → (read.ret = n ↔ (n : Int) ≤ size ∧ n ≤ limit ∧ EndsAt buffer n)
  value : ∀ n : Nat, 0 < n → read.ret = n → read.value = some (cut (number buffer n))
  refused : (∀ n : Nat, 0 < n → read.ret ≠ n) → read.ret = -1 ∧ read.value = none

/-- Lines that meet no end go on, or run out of bytes. -/
theorem readUnrolled_unended {byteAt : Nat → Option UInt8} (shifts : List UInt32) (taken : Nat)
    (marked : ∀ index byte, index < shifts.length → byteAt (taken + index) = some byte →
      128 ≤ byte.toNat) (part : UInt32) :
    (∃ last, readUnrolled byteAt shifts taken part = .more last (taken + shifts.length)) ∨
      ∃ last, readUnrolled byteAt shifts taken part = .short last := by
  induction shifts generalizing taken part with
  | nil => exact Or.inl ⟨part, rfl⟩
  | cons shift shifts ih =>
      rw [readUnrolled]
      cases here : byteAt taken with
      | none => exact Or.inr ⟨taken, rfl⟩
      | some byte =>
          have high := marked 0 byte (by simp) here
          have another : ¬byte.toUInt32 &&& 0x80 = 0 := by
            rw [marker_eq_zero]
            omega
          have later : ∀ index byte, index < shifts.length →
              byteAt (taken + 1 + index) = some byte → 128 ≤ byte.toNat := by
            intro index byte bound found
            rw [Nat.add_assoc, Nat.add_comm 1] at found
            exact marked (index + 1) byte (by simpa using bound) found
          dsimp only
          rw [if_neg another, List.length_cons, ← Nat.add_assoc, Nat.add_right_comm]
          exact ih (taken + 1) later _

theorem readVarint32_unended {byteAt : Nat → Option UInt8}
    (marked : ∀ index byte, index < 5 → byteAt index = some byte → 128 ≤ byte.toNat) :
    (readVarint32 byteAt).ret = -1 ∧ (readVarint32 byteAt).value = none := by
  rw [readVarint32]
  rcases readUnrolled_unended [0, 7, 14, 21, 28] 0 (by simpa using marked) 0 with
    ⟨last, read⟩ | ⟨last, read⟩ <;>
    simp [read]

theorem readVarint64_unended {byteAt : Nat → Option UInt8}
    (marked : ∀ index byte, index < 10 → byteAt index = some byte → 128 ≤ byte.toNat) :
    (readVarint64 byteAt).ret = -1 ∧ (readVarint64 byteAt).value = none := by
  have from_ : ∀ start count, start + count ≤ 10 → ∀ index byte, index < count →
      byteAt (start + index) = some byte → 128 ≤ byte.toNat :=
    fun start count room index byte bound => marked (start + index) byte (by omega)
  rw [readVarint64]
  rcases readUnrolled_unended [0, 7, 14, 21] 0 (from_ 0 4 (by decide)) 0 with
    ⟨last, read⟩ | ⟨last, read⟩
  · rw [read]
    rcases readUnrolled_unended [0, 7, 14, 21] 4 (from_ 4 4 (by decide)) 0 with
      ⟨last, read⟩ | ⟨last, read⟩
    · simp only [List.length_cons, List.length_nil, Nat.reduceAdd, read]
      rcases readUnrolled_unended [0, 7] 8 (from_ 8 2 (by decide)) 0 with
        ⟨last, read⟩ | ⟨last, read⟩ <;>
        simp [read]
    · simp [read]
  · simp [read]

/-- A reader that reads the numbers which end in time, and refuses the rest, reads exactly. -/
theorem readsExactly_of {α : Type} {cut : Nat → α} {limit : Nat} {read : VarintRead α}
    (reads : ∀ n, EndsAt buffer n → (n : Int) ≤ size → n ≤ limit →
      read = ⟨n, some (cut (number buffer n)), n⟩)
    (refuses : (∀ index < limit, (index : Int) < size → 128 ≤ (buffer index).toNat) →
      read.ret = -1 ∧ read.value = none) :
    ReadsExactly cut limit buffer size read := by
  rcases endsAt_or_marked buffer (min limit size.toNat) with ⟨n, within, ends⟩ | marked
  · have positive := ends.1
    have room : (n : Int) ≤ size ∧ n ≤ limit := by omega
    have taken := reads n ends room.1 room.2
    refine ⟨fun n' _ => ?_, fun n' _ same => ?_, fun none => ?_⟩
    · rw [taken]
      constructor
      · intro same
        obtain rfl : n = n' := Int.ofNat_inj.mp same
        exact ⟨room.1, room.2, ends⟩
      · rintro ⟨-, -, ends'⟩
        rw [ends.unique ends']
    · rw [taken] at same ⊢
      obtain rfl : n = n' := Int.ofNat_inj.mp same
      rfl
    · exact absurd (by rw [taken]) (none n positive)
  · obtain ⟨ret, value⟩ := refuses fun index inside below => marked index (by omega)
    refine ⟨fun n' positive => ?_, fun n' positive same => ?_, fun _ => ⟨ret, value⟩⟩
    · rw [ret]
      refine iff_of_false (by omega) ?_
      rintro ⟨inside, below, ends⟩
      have high := marked (n' - 1) (by omega)
      exact absurd ends.2.2 (by omega)
    · rw [ret] at same
      omega

theorem ahead_of_le {n : Nat} (inside : (n : Int) ≤ size) (index : Nat)
    (bound : index < ((List.range n).map buffer).length) :
    bounded buffer size index = ((List.range n).map buffer)[index]? := by
  simp only [List.length_map, List.length_range] at bound
  rw [bounded_of_lt (by omega)]
  simp [bound]

theorem readVarint32Safe_exact (buffer : Nat → UInt8) (size : Int) :
    ReadsExactly UInt32.ofNat 5 buffer size (readVarint32Safe buffer size) := by
  rw [readVarint32Safe_eq]
  refine readsExactly_of (fun n ends inside short => ?_) fun marked => ?_
  · rw [readVarint32_run ends.isVarint (by simpa using short) (ahead_of_le inside)]
    simp
  · refine readVarint32_unended fun index byte below found => ?_
    obtain ⟨inside, rfl⟩ := bounded_eq_some.mp found
    exact marked index below inside

theorem readVarint64Safe_exact (buffer : Nat → UInt8) (size : Int) :
    ReadsExactly UInt64.ofNat 10 buffer size (readVarint64Safe buffer size) := by
  rw [readVarint64Safe_eq]
  refine readsExactly_of (fun n ends inside short => ?_) fun marked => ?_
  · rw [readVarint64_run ends.isVarint (by simpa using short) (ahead_of_le inside)]
    simp
  · refine readVarint64_unended fun index byte below found => ?_
    obtain ⟨inside, rfl⟩ := bounded_eq_some.mp found
    exact marked index below inside

/-- A reader without a size agrees with one that has it, if they do where the number ends in time
and where it does not end within the limit. -/
theorem eq_of_readsExactly {α : Type} {cut : Nat → α} {limit : Nat} {read safe : VarintRead α}
    (exact_ : ReadsExactly cut limit buffer size safe)
    (reads : ∀ n, EndsAt buffer n → (n : Int) ≤ size → n ≤ limit → read = safe)
    (overruns : (∀ index < limit, 128 ≤ (buffer index).toNat) → (limit : Int) ≤ size → read = safe)
    (enough : 0 < safe.ret ∨ (limit : Int) ≤ size) : read = safe := by
  rcases endsAt_or_marked buffer limit with ⟨n, within, ends⟩ | marked
  · refine reads n ends ?_ within
    rcases enough with succeeds | room
    · have same : safe.ret = safe.ret.toNat := (Int.toNat_of_nonneg (by omega)).symm
      obtain ⟨inside, -, ends'⟩ := (exact_.accepted safe.ret.toNat (by omega)).mp same
      rwa [ends.unique ends']
    · omega
  · refine overruns marked ?_
    rcases enough with succeeds | room
    · have same : safe.ret = safe.ret.toNat := (Int.toNat_of_nonneg (by omega)).symm
      obtain ⟨-, below, -, -, clear⟩ := (exact_.accepted safe.ret.toNat (by omega)).mp same
      have high := marked (safe.ret.toNat - 1) (by omega)
      omega
    · exact room

theorem readVarint32_eq_safe (enough : 0 < (readVarint32Safe buffer size).ret ∨ 5 ≤ size) :
    readVarint32 (fun index => some (buffer index)) = readVarint32Safe buffer size := by
  refine eq_of_readsExactly (readVarint32Safe_exact buffer size) ?_ ?_ enough
  · intro n ends inside short
    have few : ((List.range n).map buffer).length ≤ 5 := by simpa using short
    rw [readVarint32Safe_eq, readVarint32_run ends.isVarint few (ahead_of_le inside),
      readVarint32_run ends.isVarint few (by simp +contextual)]
  · intro marked room
    rw [readVarint32Safe_eq,
      readVarint32_overlong _ fun index bound => ⟨_, rfl, marked index bound⟩,
      readVarint32_overlong _ fun index bound =>
        ⟨_, bounded_of_lt (by omega), marked index bound⟩]

theorem readVarint64_eq_safe (enough : 0 < (readVarint64Safe buffer size).ret ∨ 10 ≤ size) :
    readVarint64 (fun index => some (buffer index)) = readVarint64Safe buffer size := by
  refine eq_of_readsExactly (readVarint64Safe_exact buffer size) ?_ ?_ enough
  · intro n ends inside short
    have few : ((List.range n).map buffer).length ≤ 10 := by simpa using short
    rw [readVarint64Safe_eq, readVarint64_run ends.isVarint few (ahead_of_le inside),
      readVarint64_run ends.isVarint few (by simp +contextual)]
  · intro marked room
    rw [readVarint64Safe_eq,
      readVarint64_overlong _ fun index bound => ⟨_, rfl, marked index bound⟩,
      readVarint64_overlong _ fun index bound =>
        ⟨_, bounded_of_lt (by omega), marked index bound⟩]

/-- The readers that know the size accept just the numbers that end within their limit and the size,
and the others do what they do where these succeed or the size is not less than the limit. -/
theorem readers_exact (buffer : Nat → UInt8) (size : Int) :
    ReadsExactly UInt32.ofNat 5 buffer size (readVarint32Safe buffer size) ∧
    ReadsExactly UInt64.ofNat 10 buffer size (readVarint64Safe buffer size) ∧
    (0 < (readVarint32Safe buffer size).ret ∨ 5 ≤ size →
      readVarint32 (fun index => some (buffer index)) = readVarint32Safe buffer size) ∧
    (0 < (readVarint64Safe buffer size).ret ∨ 10 ≤ size →
      readVarint64 (fun index => some (buffer index)) = readVarint64Safe buffer size) :=
  ⟨readVarint32Safe_exact buffer size, readVarint64Safe_exact buffer size, readVarint32_eq_safe,
    readVarint64_eq_safe⟩

end WireFormat

end FlashForwarder
