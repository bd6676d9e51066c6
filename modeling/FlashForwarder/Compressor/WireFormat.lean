import FlashForwarder.Library.Varint
import Mathlib.Data.Int.Basic
import Mathlib.Data.Nat.Bitwise
import Mathlib.Tactic.IntervalCases

/-!
# The wire format

Variable-length integers and the zigzag transform.  The readers and writers are unrolled over
32-bit parts as in the source; a run's meaning is its base-128 value.
-/

namespace FlashForwarder

open Varint

namespace WireFormat

/-! ## Zigzag -/

/-- `ZigZagEncode32` -/
def zigZagEncode32 (n : Int32) : UInt32 := ((n <<< 1) ^^^ (n >>> 31)).toUInt32

/-- `ZigZagDecode32` -/
def zigZagDecode32 (n : UInt32) : Int32 := ((n >>> 1) ^^^ (-(n &&& 1).toInt32).toUInt32).toInt32

/-- `ZigZagEncode64` -/
def zigZagEncode64 (n : Int64) : UInt64 := ((n <<< 1) ^^^ (n >>> 63)).toUInt64

/-- `ZigZagDecode64` -/
def zigZagDecode64 (n : UInt64) : Int64 := ((n >>> 1) ^^^ (-(n &&& 1).toInt64).toUInt64).toInt64

/-! ## Writers -/

/-- `WriteVarint32`: the bytes stored at `target`. -/
def writeVarint32 (value : UInt32) : List UInt8 :=
  let target0 := (value ||| 0x80).toUInt8
  if value ≥ (1 : UInt32) <<< 7 then
    let target1 := ((value >>> 7) ||| 0x80).toUInt8
    if value ≥ (1 : UInt32) <<< 14 then
      let target2 := ((value >>> 14) ||| 0x80).toUInt8
      if value ≥ (1 : UInt32) <<< 21 then
        let target3 := ((value >>> 21) ||| 0x80).toUInt8
        if value ≥ (1 : UInt32) <<< 28 then
          [target0, target1, target2, target3, (value >>> 28).toUInt8]
        else
          [target0, target1, target2, target3 &&& 0x7F]
      else
        [target0, target1, target2 &&& 0x7F]
    else
      [target0, target1 &&& 0x7F]
  else
    [target0 &&& 0x7F]

/-- The number of bytes `WriteVarint64` chooses from its three parts. -/
def varintSize (part0 part1 part2 : UInt32) : Nat :=
  if part2 = 0 then
    if part1 = 0 then
      if part0 < (1 : UInt32) <<< 14 then
        if part0 < (1 : UInt32) <<< 7 then 1 else 2
      else
        if part0 < (1 : UInt32) <<< 21 then 3 else 4
    else
      if part1 < (1 : UInt32) <<< 14 then
        if part1 < (1 : UInt32) <<< 7 then 5 else 6
      else
        if part1 < (1 : UInt32) <<< 21 then 7 else 8
  else
    if part2 < (1 : UInt32) <<< 7 then 9 else 10

/-- `WriteVarint64`: the bytes stored at `target`. -/
def writeVarint64 (value : UInt64) : List UInt8 :=
  let part0 := value.toUInt32
  let part1 := (value >>> 28).toUInt32
  let part2 := (value >>> 56).toUInt32
  let size := varintSize part0 part1 part2
  let target : List UInt8 :=
    [(part0 ||| 0x80).toUInt8, ((part0 >>> 7) ||| 0x80).toUInt8,
      ((part0 >>> 14) ||| 0x80).toUInt8, ((part0 >>> 21) ||| 0x80).toUInt8,
      (part1 ||| 0x80).toUInt8, ((part1 >>> 7) ||| 0x80).toUInt8,
      ((part1 >>> 14) ||| 0x80).toUInt8, ((part1 >>> 21) ||| 0x80).toUInt8,
      (part2 ||| 0x80).toUInt8, ((part2 >>> 7) ||| 0x80).toUInt8]
  (target.take size).modify (size - 1) (· &&& 0x7F)

/-- `WriteSignedVarint32` -/
def writeSignedVarint32 (value : Int32) : List UInt8 := writeVarint32 (zigZagEncode32 value)

/-- `WriteSignedVarint64` -/
def writeSignedVarint64 (value : Int64) : List UInt8 := writeVarint64 (zigZagEncode64 value)

/-! ## Readers -/

/-- Where an unrolled reader stands after a group of bytes. -/
inductive Unrolled where
  /-- The last byte had its top bit clear: the part read and the number of bytes taken. -/
  | done (part : UInt32) (taken : Nat)
  /-- Every byte had its top bit set. -/
  | more (part : UInt32) (taken : Nat)
  /-- The bytes ran out before the group was read. -/
  | short (taken : Nat)
  deriving DecidableEq

/-- The unrolled lines that add one byte at each shift into a 32-bit part and take its marker
back out when another byte follows. -/
def readUnrolled (byteAt : Nat → Option UInt8) : List UInt32 → Nat → UInt32 → Unrolled
  | [], taken, part => .more part taken
  | shift :: shifts, taken, part =>
      match byteAt taken with
      | none => .short taken
      | some byte =>
          let b := byte.toUInt32
          let part := part + (b <<< shift)
          if b &&& 0x80 = 0 then
            .done part (taken + 1)
          else
            readUnrolled byteAt shifts (taken + 1) (part - (0x80 <<< shift))

/-- What a reader returns. -/
structure VarintRead (α : Type) where
  /-- The returned length, or `-1`. -/
  ret : Int
  /-- The value stored, when one was. -/
  value : Option α
  /-- The number of bytes looked at. -/
  touched : Nat
  deriving DecidableEq

/-- `ReadVarint32` from successive bytes. -/
def readVarint32 (byteAt : Nat → Option UInt8) : VarintRead UInt32 :=
  match readUnrolled byteAt [0, 7, 14, 21, 28] 0 0 with
  | .done result taken => ⟨taken, some result, taken⟩
  | .more _ taken => ⟨-1, none, taken⟩
  | .short taken => ⟨-1, none, taken⟩

/-- The three parts of a 64-bit value put together. -/
def joinParts (part0 part1 part2 : UInt32) : UInt64 :=
  part0.toUInt64 ||| (part1.toUInt64 <<< 28) ||| (part2.toUInt64 <<< 56)

/-- `ReadVarint64` from successive bytes. -/
def readVarint64 (byteAt : Nat → Option UInt8) : VarintRead UInt64 :=
  match readUnrolled byteAt [0, 7, 14, 21] 0 0 with
  | .done part0 taken => ⟨taken, some (joinParts part0 0 0), taken⟩
  | .short taken => ⟨-1, none, taken⟩
  | .more part0 taken =>
      match readUnrolled byteAt [0, 7, 14, 21] taken 0 with
      | .done part1 taken => ⟨taken, some (joinParts part0 part1 0), taken⟩
      | .short taken => ⟨-1, none, taken⟩
      | .more part1 taken =>
          match readUnrolled byteAt [0, 7] taken 0 with
          | .done part2 taken => ⟨taken, some (joinParts part0 part1 part2), taken⟩
          | .short taken => ⟨-1, none, taken⟩
          | .more _ taken => ⟨-1, none, taken⟩

/-! ## What the writers write -/

private theorem or_mark (n : Nat) : (n ||| 128) % 256 = n % 128 + 128 := by
  have low : n % 128 < 2 ^ 7 := Nat.mod_lt _ (by decide)
  have set := (Nat.two_pow_add_eq_or_of_lt low 1).symm
  simp only [Nat.reducePow, Nat.mul_one] at set
  have cut := Nat.or_mod_two_pow (a := n) (b := 128) (n := 8)
  simp only [Nat.reducePow, Nat.reduceMod] at cut
  rw [cut, Nat.or_comm]
  by_cases marked : n % 256 < 128
  · rw [show n % 256 = n % 128 by omega, set]
    omega
  · rw [show n % 256 = 128 + n % 128 by omega, ← set, ← Nat.or_assoc, Nat.or_self, set]
    omega

/-- A marked byte of a 32-bit part is a group of the number the part was cut from. -/
theorem marked_eq_group {part : UInt32} {value index shift : Nat} (small : shift < 32)
    (same : part.toNat / 2 ^ shift % 128 = value / 128 ^ index % 128) :
    ((part >>> UInt32.ofNat shift) ||| 0x80).toUInt8 = group value index := by
  apply UInt8.toNat_inj.mp
  have shifted : (UInt32.ofNat shift).toNat % 32 = shift := by
    rw [UInt32.toNat_ofNat']
    omega
  simp only [UInt32.toNat_toUInt8, UInt32.toNat_or, UInt32.toNat_shiftRight, shifted,
    Nat.shiftRight_eq_div_pow, UInt32.reduceToNat, toNat_group]
  rw [show (2 : Nat) ^ 8 = 256 from rfl, or_mark, same]

theorem group_and (value index : Nat) : group value index &&& 0x7F = lastGroup value index := by
  apply UInt8.toNat_inj.mp
  rw [UInt8.toNat_and, toNat_group, toNat_lastGroup]
  have low := Nat.and_two_pow_sub_one_eq_mod (value / 128 ^ index % 128 + 128) 7
  rw [show (0x7F : UInt8).toNat = 2 ^ 7 - 1 from rfl, low]
  omega

theorem borders :
    ((1 : UInt32) <<< 7).toNat = 2 ^ 7 ∧ ((1 : UInt32) <<< 14).toNat = 2 ^ 14 ∧
      ((1 : UInt32) <<< 21).toNat = 2 ^ 21 ∧ ((1 : UInt32) <<< 28).toNat = 2 ^ 28 :=
  ⟨rfl, rfl, rfl, rfl⟩

/-- `WriteVarint32` writes the value in base 128. -/
theorem writeVarint32_isVarint (value : UInt32) :
    IsVarint (writeVarint32 value) value.toNat := by
  have small := value.toNat_lt
  have mark : ∀ index, index < 4 →
      ((value >>> UInt32.ofNat (7 * index)) ||| 0x80).toUInt8 = group value.toNat index :=
    fun index bound => marked_eq_group (by omega) (by rw [Nat.pow_mul])
  have mark0 := mark 0 (by decide)
  have mark1 := mark 1 (by decide)
  have mark2 := mark 2 (by decide)
  have mark3 := mark 3 (by decide)
  have last4 : (value >>> 28).toUInt8 = lastGroup value.toNat 4 := by
    apply UInt8.toNat_inj.mp
    rw [toNat_lastGroup]
    simp [Nat.shiftRight_eq_div_pow]
    omega
  simp only [UInt32.reduceOfNat, Nat.reduceMul, UInt32.shiftRight_zero] at mark0 mark1 mark2 mark3
  unfold writeVarint32
  simp only [mark0, mark1, mark2, mark3, last4, group_and, ge_iff_le, UInt32.le_iff_toNat_le,
    borders]
  split
  · split
    · split
      · split
        · exact isVarint_groups 4 (by omega)
        · exact isVarint_groups 3 (by omega)
      · exact isVarint_groups 2 (by omega)
    · exact isVarint_groups 1 (by omega)
  · exact isVarint_groups 0 (by omega)

/-- The size that `WriteVarint64` chooses is the least number of groups that hold the value. -/
theorem isGroupCount_varintSize (value : UInt64) : IsGroupCount value.toNat
    (varintSize value.toUInt32 (value >>> 28).toUInt32 (value >>> 56).toUInt32) := by
  have small := value.toNat_lt
  unfold varintSize
  simp only [← UInt32.toNat_inj, UInt32.lt_iff_toNat_lt, UInt64.toNat_toUInt32,
    UInt64.toNat_shiftRight, Nat.shiftRight_eq_div_pow, borders, UInt32.reduceToNat,
    UInt64.reduceToNat, Nat.reduceMod, Nat.reducePow]
  split
  · split
    · split
      · split
        · exact isGroupCount_succ_iff.mpr ⟨by omega, by omega⟩
        · exact isGroupCount_succ_iff.mpr ⟨by omega, by omega⟩
      · split
        · exact isGroupCount_succ_iff.mpr ⟨by omega, by omega⟩
        · exact isGroupCount_succ_iff.mpr ⟨by omega, by omega⟩
    · split
      · split
        · exact isGroupCount_succ_iff.mpr ⟨by omega, by omega⟩
        · exact isGroupCount_succ_iff.mpr ⟨by omega, by omega⟩
      · split
        · exact isGroupCount_succ_iff.mpr ⟨by omega, by omega⟩
        · exact isGroupCount_succ_iff.mpr ⟨by omega, by omega⟩
  · split
    · exact isGroupCount_succ_iff.mpr ⟨by omega, by omega⟩
    · exact isGroupCount_succ_iff.mpr ⟨by omega, by omega⟩

theorem varintSize_spec (value : UInt64) :
    ∃ count, varintSize value.toUInt32 (value >>> 28).toUInt32 (value >>> 56).toUInt32 =
        count + 1 ∧ count < 10 ∧ value.toNat < 128 ^ (count + 1) := by
  have small := value.toNat_lt
  have least := isGroupCount_varintSize value
  have most := least.le_of_lt_pow (n := 10) (by decide) (by omega)
  obtain ⟨count, size⟩ := Nat.exists_eq_succ_of_ne_zero (Nat.ne_of_gt least.pos)
  rw [size] at least most
  exact ⟨count, size, most, least.lt_pow⟩

/-- `WriteVarint64` writes the value in base 128. -/
theorem writeVarint64_isVarint (value : UInt64) :
    IsVarint (writeVarint64 value) value.toNat := by
  obtain ⟨count, size, bound, fits⟩ := varintSize_spec value
  have small := value.toNat_lt
  have cut0 : value.toUInt32.toNat = value.toNat % 2 ^ 32 := UInt64.toNat_toUInt32 _
  have cut1 : (value >>> 28).toUInt32.toNat = value.toNat / 2 ^ 28 % 2 ^ 32 := by
    simp [Nat.shiftRight_eq_div_pow]
  have cut2 : (value >>> 56).toUInt32.toNat = value.toNat / 2 ^ 56 % 2 ^ 32 := by
    simp [Nat.shiftRight_eq_div_pow]
  have mark0 : ∀ index, index < 4 →
      ((value.toUInt32 >>> UInt32.ofNat (7 * index)) ||| 0x80).toUInt8 =
        group value.toNat index := by
    intro index bound
    apply marked_eq_group (by omega)
    rw [cut0]
    interval_cases index <;> simp <;> omega
  have mark1 : ∀ index, index < 4 →
      (((value >>> 28).toUInt32 >>> UInt32.ofNat (7 * index)) ||| 0x80).toUInt8 =
        group value.toNat (4 + index) := by
    intro index bound
    apply marked_eq_group (by omega)
    rw [cut1]
    interval_cases index <;> simp <;> omega
  have mark2 : ∀ index, index < 2 →
      (((value >>> 56).toUInt32 >>> UInt32.ofNat (7 * index)) ||| 0x80).toUInt8 =
        group value.toNat (8 + index) := by
    intro index bound
    apply marked_eq_group (by omega)
    rw [cut2]
    interval_cases index <;> simp
    omega
  have marks : writeVarint64 value =
      (((List.range 10).map (group value.toNat)).take (count + 1)).modify count (· &&& 0x7F) := by
    have target : (List.range 10).map (group value.toNat) =
        [(value.toUInt32 ||| 0x80).toUInt8, ((value.toUInt32 >>> 7) ||| 0x80).toUInt8,
          ((value.toUInt32 >>> 14) ||| 0x80).toUInt8, ((value.toUInt32 >>> 21) ||| 0x80).toUInt8,
          ((value >>> 28).toUInt32 ||| 0x80).toUInt8,
          (((value >>> 28).toUInt32 >>> 7) ||| 0x80).toUInt8,
          (((value >>> 28).toUInt32 >>> 14) ||| 0x80).toUInt8,
          (((value >>> 28).toUInt32 >>> 21) ||| 0x80).toUInt8,
          ((value >>> 56).toUInt32 ||| 0x80).toUInt8,
          (((value >>> 56).toUInt32 >>> 7) ||| 0x80).toUInt8] := by
      have first0 : (value.toUInt32 ||| 0x80).toUInt8 = group value.toNat 0 := by
        simpa using mark0 0 (by decide)
      have first1 : ((value >>> 28).toUInt32 ||| 0x80).toUInt8 = group value.toNat 4 := by
        simpa using mark1 0 (by decide)
      have first2 : ((value >>> 56).toUInt32 ||| 0x80).toUInt8 = group value.toNat 8 := by
        simpa using mark2 0 (by decide)
      rw [first0, first1, first2]
      simp only [List.range_succ, List.range_zero, List.map_cons, List.map_nil,
        List.nil_append, List.cons_append, ← mark0 1 (by decide), ← mark0 2 (by decide),
        ← mark0 3 (by decide), ← mark1 1 (by decide), ← mark1 2 (by decide),
        ← mark1 3 (by decide), ← mark2 1 (by decide)]
      rfl
    rw [target, writeVarint64]
    simp only [size, Nat.add_sub_cancel]
  have groups : ((List.range 10).map (group value.toNat)).take (count + 1) =
      (List.range count).map (group value.toNat) ++ [group value.toNat count] := by
    rw [← List.map_take, List.take_range, Nat.min_eq_left (by omega), List.range_succ,
      List.map_append, List.map_singleton]
  have run := isVarint_groups count fits
  rw [marks, groups]
  rw [List.modify_eq_take_cons_drop (by simp), List.drop_eq_nil_of_le (by simp)]
  simpa [group_and] using run

/-! ## What the readers read -/

/-- The shifts of successive groups. -/
def shiftsFrom (shift count : Nat) : List UInt32 :=
  (List.range count).map fun index => UInt32.ofNat (shift + 7 * index)

theorem shiftsFrom_succ (shift count : Nat) :
    shiftsFrom shift (count + 1) = UInt32.ofNat shift :: shiftsFrom (shift + 7) count := by
  simp only [shiftsFrom, List.range_succ_eq_map, List.map_cons, List.map_map, Nat.mul_zero,
    Nat.add_zero]
  congr 1
  apply List.map_congr_left
  intro index _
  simp only [Function.comp_apply]
  congr 1
  omega

private theorem shiftLeft_eq (part : UInt32) {shift : Nat} (small : shift < 32) :
    part <<< UInt32.ofNat shift = UInt32.ofNat (part.toNat * 2 ^ shift) := by
  apply UInt32.toNat_inj.mp
  rw [UInt32.toNat_shiftLeft, UInt32.toNat_ofNat', UInt32.toNat_ofNat', Nat.shiftLeft_eq,
    Nat.mod_eq_of_lt (by omega : shift < 2 ^ 32), Nat.mod_eq_of_lt small]

theorem marker_eq_zero (byte : UInt8) :
    byte.toUInt32 &&& 0x80 = 0 ↔ byte.toNat < 128 := by
  have bound : byte.toNat < 256 := byte.toNat_lt
  have bit : byte.toNat &&& 2 ^ 7 = byte.toNat / 2 ^ 7 % 2 * 2 ^ 7 := by
    rw [Nat.and_two_pow, Nat.toNat_testBit]
  rw [← UInt32.toNat_inj]
  change byte.toNat &&& 2 ^ 7 = 0 ↔ byte.toNat < 128
  rw [bit]
  omega

/-- The unrolled lines read a run to its end, or as far as they go. -/
theorem readUnrolled_run {byteAt : Nat → Option UInt8} {bytes : List UInt8} {value : Nat}
    (run : IsVarint bytes value) (taken shift count : Nat)
    (ahead : ∀ index, index < bytes.length → byteAt (taken + index) = bytes[index]?)
    (room : shift + 7 * count ≤ 35) (part : UInt32) :
    readUnrolled byteAt (shiftsFrom shift count) taken part =
      if bytes.length ≤ count then
        .done (part + UInt32.ofNat (value * 2 ^ shift)) (taken + bytes.length)
      else
        .more (part + UInt32.ofNat (value % 128 ^ count * 2 ^ shift)) (taken + count) := by
  induction count generalizing bytes value taken shift part with
  | zero =>
      have positive := run.length_pos
      rw [if_neg (by omega)]
      simp [shiftsFrom, readUnrolled, Nat.mod_one]
  | succ count ih =>
      rw [shiftsFrom_succ, readUnrolled]
      cases run with
      | @last byte small =>
          have here : byteAt taken = some byte := by simpa using ahead 0 (by simp)
          simp only [here, (marker_eq_zero byte).mpr small, if_true]
          rw [if_pos (by simp), shiftLeft_eq _ (by omega)]
          simp
      | @more byte rest value high run =>
          have here : byteAt taken = some byte := by simpa using ahead 0 (by simp)
          have marked : ¬byte.toUInt32 &&& 0x80 = 0 := by
            rw [marker_eq_zero]
            omega
          have later : ∀ index, index < rest.length →
              byteAt (taken + 1 + index) = rest[index]? := by
            intro index bound
            have := ahead (index + 1) (by simpa using bound)
            rwa [List.getElem?_cons_succ, show taken + (index + 1) = taken + 1 + index by omega]
              at this
          obtain ⟨low, split⟩ : ∃ low, byte.toNat = 128 + low := ⟨byte.toNat - 128, by omega⟩
          have sum : ∀ rest, part + UInt32.ofNat (byte.toNat * 2 ^ shift) -
              UInt32.ofNat (128 * 2 ^ shift) + UInt32.ofNat (rest * 2 ^ (shift + 7)) =
                part + UInt32.ofNat ((low + 128 * rest) * 2 ^ shift) := by
            intro rest
            rw [split, Nat.add_mul, Nat.add_mul, UInt32.ofNat_add, UInt32.ofNat_add, Nat.pow_add,
              show rest * (2 ^ shift * 2 ^ 7) = 128 * rest * 2 ^ shift by ring]
            grind
          have low128 := byte.toNat_lt
          have cut :
              (low + 128 * value) % 128 ^ (count + 1) = low + 128 * (value % 128 ^ count) := by
            rw [Nat.pow_succ', Nat.mod_mul]
            congr 1 <;> [skip; congr 2] <;> omega
          simp only [here, marked, if_false]
          rw [ih run _ _ later (by omega), shiftLeft_eq _ (by omega), shiftLeft_eq _ (by omega),
            UInt8.toNat_toUInt32, show (0x80 : UInt32).toNat = 128 from rfl, sum, sum, split,
            Nat.add_sub_cancel_left, cut]
          simp only [List.length_cons, Nat.add_le_add_iff_right]
          congr 2 <;> omega

private theorem or_eq_add_mul {low high : Nat} (shift : Nat) (small : low < 2 ^ shift) :
    low ||| high * 2 ^ shift = low + high * 2 ^ shift := by
  rw [Nat.or_comm, Nat.add_comm, Nat.mul_comm]
  exact (Nat.two_pow_add_eq_or_of_lt small high).symm

/-- The three parts of a 64-bit value do not overlap. -/
theorem joinParts_ofNat {value0 : Nat} (value1 value2 : Nat) (small0 : value0 < 2 ^ 28)
    (small1 : value1 < 2 ^ 28) (small2 : value2 < 2 ^ 32) :
    joinParts (UInt32.ofNat value0) (UInt32.ofNat value1) (UInt32.ofNat value2) =
      UInt64.ofNat (value0 + 2 ^ 28 * (value1 + 2 ^ 28 * value2)) := by
  apply UInt64.toNat_inj.mp
  have shift28 : (28 : UInt64).toNat % 64 = 28 := rfl
  have shift56 : (56 : UInt64).toNat % 64 = 56 := rfl
  simp only [joinParts, UInt64.toNat_or, UInt64.toNat_shiftLeft, UInt32.toNat_toUInt64,
    UInt32.toNat_ofNat', UInt64.toNat_ofNat', shift28, shift56, Nat.shiftLeft_eq]
  rw [Nat.mod_eq_of_lt (by omega : value0 < 2 ^ 32), Nat.mod_eq_of_lt (by omega : value1 < 2 ^ 32),
    Nat.mod_eq_of_lt small2, Nat.mod_eq_of_lt (by omega : value1 * 2 ^ 28 < 2 ^ 64),
    or_eq_add_mul 28 small0,
    show value2 * 2 ^ 56 % 2 ^ 64 = value2 % 2 ^ 8 * 2 ^ 56 by omega,
    or_eq_add_mul 56 (by omega)]
  omega

/-- `ReadVarint32` reads a run of at most five bytes. -/
theorem readVarint32_run {byteAt : Nat → Option UInt8} {bytes : List UInt8} {value : Nat}
    (run : IsVarint bytes value) (short : bytes.length ≤ 5)
    (ahead : ∀ index, index < bytes.length → byteAt index = bytes[index]?) :
    readVarint32 byteAt = ⟨bytes.length, some (UInt32.ofNat value), bytes.length⟩ := by
  have read := readUnrolled_run run 0 0 5 (by simpa using ahead) (by decide) 0
  rw [if_pos short] at read
  have shifts : shiftsFrom 0 5 = [0, 7, 14, 21, 28] := by decide
  rw [readVarint32, ← shifts, read]
  simp

/-- `ReadVarint64` reads a run of at most ten bytes. -/
theorem readVarint64_run {byteAt : Nat → Option UInt8} {bytes : List UInt8} {value : Nat}
    (run : IsVarint bytes value) (short : bytes.length ≤ 10)
    (ahead : ∀ index, index < bytes.length → byteAt index = bytes[index]?) :
    readVarint64 byteAt = ⟨bytes.length, some (UInt64.ofNat value), bytes.length⟩ := by
  have shifts4 : shiftsFrom 0 4 = [0, 7, 14, 21] := by decide
  have shifts2 : shiftsFrom 0 2 = [0, 7] := by decide
  have part : ∀ number, (0 : UInt32) + UInt32.ofNat (number * 2 ^ 0) = UInt32.ofNat number := by
    simp
  have beyond : ∀ start, start < bytes.length → ∀ index, index < (bytes.drop start).length →
      byteAt (start + index) = (bytes.drop start)[index]? := by
    intro start _ index bound
    rw [List.getElem?_drop]
    exact ahead _ (by rw [List.length_drop] at bound; omega)
  have read0 := readUnrolled_run run 0 0 4 (by simpa using ahead) (by decide) 0
  rw [part, part, shifts4] at read0
  have small := run.lt_pow
  unfold readVarint64
  by_cases one : bytes.length ≤ 4
  · have fits : value < 2 ^ 28 :=
      lt_of_lt_of_le small (Nat.pow_le_pow_right (n := 128) (by decide) one)
    have joined := joinParts_ofNat 0 0 fits (by decide) (by decide)
    simp only [Nat.mul_zero, Nat.add_zero] at joined
    rw [if_pos one] at read0
    rw [read0]
    simp only [Nat.zero_add]
    rw [← joined]
    rfl
  · rw [if_neg one] at read0
    have run1 := run.drop 4 (by omega)
    have read1 := readUnrolled_run run1 4 0 4 (beyond 4 (by omega)) (by decide) 0
    rw [part, part, shifts4, List.length_drop] at read1
    have small1 := run1.lt_pow
    rw [List.length_drop] at small1
    have low : value % 128 ^ 4 < 2 ^ 28 := Nat.mod_lt _ (by decide)
    rw [read0]
    simp only [Nat.zero_add]
    by_cases two : bytes.length ≤ 8
    · have bound : 128 ^ (bytes.length - 4) ≤ 128 ^ 4 :=
        Nat.pow_le_pow_right (by decide) (by omega)
      have joined := joinParts_ofNat _ 0 low (lt_of_lt_of_le small1 bound) (by decide)
      have total : value % 128 ^ 4 + 2 ^ 28 * (value / 128 ^ 4 + 2 ^ 28 * 0) = value := by omega
      rw [total] at joined
      rw [if_pos (by omega)] at read1
      rw [read1]
      simp only
      rw [show (0 : UInt32) = UInt32.ofNat 0 from rfl, joined,
        show 4 + (bytes.length - 4) = bytes.length by omega]
    · rw [if_neg (by omega)] at read1
      have run2 := run.drop 8 (by omega)
      have read2 := readUnrolled_run run2 8 0 2 (beyond 8 (by omega)) (by decide) 0
      rw [part, part, shifts2, List.length_drop, if_pos (by omega)] at read2
      have small2 := run2.lt_pow
      rw [List.length_drop] at small2
      have bound : 128 ^ (bytes.length - 8) ≤ 128 ^ 2 :=
        Nat.pow_le_pow_right (by decide) (by omega)
      have joined := joinParts_ofNat _ (value / 128 ^ 8) low
        (Nat.mod_lt (value / 128 ^ 4) (by decide)) (by omega)
      have total : value % 128 ^ 4 +
          2 ^ 28 * (value / 128 ^ 4 % 2 ^ 28 + 2 ^ 28 * (value / 128 ^ 8)) = value := by omega
      rw [total] at joined
      rw [read1]
      simp only [Nat.reduceAdd]
      rw [read2]
      simp only
      rw [show (128 : Nat) ^ 4 = 2 ^ 28 from rfl] at joined ⊢
      rw [joined, show 8 + (bytes.length - 8) = bytes.length by omega]

/-! ## Overlong numbers -/

/-- Unrolled lines that only meet marked bytes go through all of them. -/
theorem readUnrolled_marked {byteAt : Nat → Option UInt8} (shifts : List UInt32) (taken : Nat)
    (marked : ∀ index, index < shifts.length →
      ∃ byte, byteAt (taken + index) = some byte ∧ 128 ≤ byte.toNat) (part : UInt32) :
    ∃ last, readUnrolled byteAt shifts taken part = .more last (taken + shifts.length) := by
  induction shifts generalizing taken part with
  | nil => exact ⟨part, rfl⟩
  | cons shift shifts ih =>
      obtain ⟨byte, here, high⟩ := marked 0 (by simp)
      rw [Nat.add_zero] at here
      have another : ¬byte.toUInt32 &&& 0x80 = 0 := by
        rw [marker_eq_zero]
        omega
      obtain ⟨last, rest⟩ := ih (taken + 1)
        (fun index bound => by
          have := marked (index + 1) (by simpa using bound)
          rwa [show taken + (index + 1) = taken + 1 + index by omega] at this)
        (part + (byte.toUInt32 <<< shift) - (0x80 <<< shift))
      refine ⟨last, ?_⟩
      simp only [readUnrolled, here, another, if_false, rest, List.length_cons]
      congr 1
      omega

/-- `ReadVarint32` gives up after five marked bytes. -/
theorem readVarint32_overlong (byteAt : Nat → Option UInt8)
    (marked : ∀ index, index < 5 → ∃ byte, byteAt index = some byte ∧ 128 ≤ byte.toNat) :
    readVarint32 byteAt = ⟨-1, none, 5⟩ := by
  obtain ⟨_, read⟩ := readUnrolled_marked [0, 7, 14, 21, 28] 0 (by simpa using marked) 0
  rw [readVarint32, read]
  rfl

/-- `ReadVarint64` gives up after ten marked bytes. -/
theorem readVarint64_overlong (byteAt : Nat → Option UInt8)
    (marked : ∀ index, index < 10 → ∃ byte, byteAt index = some byte ∧ 128 ≤ byte.toNat) :
    readVarint64 byteAt = ⟨-1, none, 10⟩ := by
  have from_ : ∀ start count, start + count ≤ 10 → ∀ index, index < count →
      ∃ byte, byteAt (start + index) = some byte ∧ 128 ≤ byte.toNat :=
    fun start count room index bound => marked (start + index) (by omega)
  obtain ⟨_, read0⟩ := readUnrolled_marked [0, 7, 14, 21] 0 (from_ 0 4 (by decide)) 0
  obtain ⟨_, read1⟩ := readUnrolled_marked [0, 7, 14, 21] 4 (from_ 4 4 (by decide)) 0
  obtain ⟨_, read2⟩ := readUnrolled_marked [0, 7] 8 (from_ 8 2 (by decide)) 0
  simp only [List.length_cons, List.length_nil, Nat.reduceAdd] at read0 read1 read2
  simp only [readVarint64, read0, read1, read2]

/-! ## Round trips -/

theorem length_writeVarint32 (value : UInt32) : (writeVarint32 value).length ≤ 5 := by
  unfold writeVarint32
  split_ifs <;> simp

theorem length_writeVarint64 (value : UInt64) : (writeVarint64 value).length ≤ 10 := by
  unfold writeVarint64
  simp

/-- `ReadVarint32` reads back what `WriteVarint32` wrote. -/
theorem readVarint32_writeVarint32 (value : UInt32) {byteAt : Nat → Option UInt8}
    (ahead : ∀ index, index < (writeVarint32 value).length →
      byteAt index = (writeVarint32 value)[index]?) :
    readVarint32 byteAt =
      ⟨(writeVarint32 value).length, some value, (writeVarint32 value).length⟩ := by
  rw [readVarint32_run (writeVarint32_isVarint value) (length_writeVarint32 value) ahead,
    UInt32.ofNat_toNat]

/-- `ReadVarint64` reads back what `WriteVarint64` wrote. -/
theorem readVarint64_writeVarint64 (value : UInt64) {byteAt : Nat → Option UInt8}
    (ahead : ∀ index, index < (writeVarint64 value).length →
      byteAt index = (writeVarint64 value)[index]?) :
    readVarint64 byteAt =
      ⟨(writeVarint64 value).length, some value, (writeVarint64 value).length⟩ := by
  rw [readVarint64_run (writeVarint64_isVarint value) (length_writeVarint64 value) ahead,
    UInt64.ofNat_toNat]

/-- An arithmetic shift by all but one bit spreads the sign. -/
private theorem sshiftRight_last {w : Nat} (x : BitVec (w + 1)) :
    x.sshiftRight w = if x.msb then BitVec.allOnes (w + 1) else 0 := by
  apply BitVec.eq_of_getLsbD_eq
  intro i bound
  rw [BitVec.getLsbD_sshiftRight]
  by_cases zero : i = 0
  · subst zero
    cases sign : x.msb <;> simp_all [BitVec.msb_eq_getLsbD_last]
  · have outside : ¬w + i < w + 1 := by omega
    cases sign : x.msb
    · simp [outside]
    · rw [if_neg outside, if_pos rfl, BitVec.getLsbD_allOnes, Bool.and_true]
      simp only [bound, Nat.not_le_of_lt bound, decide_true, decide_false, Bool.not_false]

private theorem zigzag_bits {w : Nat} (x : BitVec (w + 1)) :
    ((((x <<< 1) ^^^ x.sshiftRight w) >>> 1) ^^^
      -(((x <<< 1) ^^^ x.sshiftRight w) &&& 1#(w + 1))) = x := by
  have low : ((x <<< 1) ^^^ x.sshiftRight w) &&& 1#(w + 1) = if x.msb then 1 else 0 := by
    rw [sshiftRight_last]
    apply BitVec.eq_of_getLsbD_eq
    intro i bound
    by_cases zero : i = 0 <;> cases x.msb <;> simp [zero, BitVec.getLsbD_one]
  have mask : -(((x <<< 1) ^^^ x.sshiftRight w) &&& 1#(w + 1)) = x.sshiftRight w := by
    rw [low, sshiftRight_last]
    cases x.msb
    · simp
    · exact BitVec.neg_one_eq_allOnes
  rw [mask, sshiftRight_last]
  apply BitVec.eq_of_getElem_eq
  intro i bound
  by_cases last : i = w
  · subst last
    cases sign : x.msb <;> rw [BitVec.msb_eq_getLsbD_last] at sign <;> simp_all
  · have inside : 1 + i < w + 1 := by omega
    cases x.msb <;> simp [inside]

theorem zigZagDecode32_zigZagEncode32 (n : Int32) : zigZagDecode32 (zigZagEncode32 n) = n := by
  apply Int32.toBitVec_inj.mp
  simpa [zigZagDecode32, zigZagEncode32] using zigzag_bits (w := 31) n.toBitVec

theorem zigZagDecode64_zigZagEncode64 (n : Int64) : zigZagDecode64 (zigZagEncode64 n) = n := by
  apply Int64.toBitVec_inj.mp
  simpa [zigZagDecode64, zigZagEncode64] using zigzag_bits (w := 63) n.toBitVec

end WireFormat

end FlashForwarder
