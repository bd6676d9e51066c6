import FlashForwarder.Library.ByteMemory
import Mathlib.Tactic.NormNum

/-!
# Network byte order

The 32-bit helpers of `wire.hpp`, and the little-endian image a 32-bit integer has in the
memory of the hosts this program is built for.
-/

namespace FlashForwarder

/-- `put_uint32`: the four bytes of a value, most significant first. -/
def putUint32 (value : UInt32) : List UInt8 :=
  [((value >>> 24) &&& 0xff).toUInt8, ((value >>> 16) &&& 0xff).toUInt8,
    ((value >>> 8) &&& 0xff).toUInt8, (value &&& 0xff).toUInt8]

/-- `get_uint32`: the big-endian value of the first four bytes at a pointer. -/
def getUint32 (buffer : List UInt8) : UInt32 :=
  ((buffer.getD 0 0).toUInt32 <<< 24) ||| ((buffer.getD 1 0).toUInt32 <<< 16) |||
    ((buffer.getD 2 0).toUInt32 <<< 8) ||| (buffer.getD 3 0).toUInt32

/-- The bytes of a 32-bit integer as the host stores it, least significant first. -/
def hostUint32 (value : UInt32) : List UInt8 := (putUint32 value).reverse

/-- The first `size` bytes of a 64-bit integer as the host stores it. -/
def hostBytes : Nat → UInt64 → List UInt8
  | 0, _ => []
  | size + 1, bits => bits.toUInt8 :: hostBytes size (bits >>> 8)

/-- The integer that bytes of the host's order stand for, extended with zeros. -/
def hostValue : List UInt8 → UInt64
  | [] => 0
  | byte :: bytes => byte.toUInt64 ||| (hostValue bytes <<< 8)

/-- Load a 32-bit integer of host byte order at an offset. -/
def loadUint32 (buffer : List UInt8) (offset : Nat) : UInt32 :=
  getUint32 ((buffer.drop offset).take 4).reverse

/-- `put_uint32` at an offset: four bytes are overwritten. -/
def storeUint32 (buffer : List UInt8) (offset : Nat) (value : UInt32) : List UInt8 :=
  (((buffer.set offset ((value >>> 24) &&& 0xff).toUInt8).set (offset + 1)
    ((value >>> 16) &&& 0xff).toUInt8).set (offset + 2)
    ((value >>> 8) &&& 0xff).toUInt8).set (offset + 3) (value &&& 0xff).toUInt8

@[simp] theorem length_putUint32 (value : UInt32) : (putUint32 value).length = 4 := rfl

@[simp] theorem length_hostUint32 (value : UInt32) : (hostUint32 value).length = 4 := rfl

private theorem or_eq_add {high low : Nat} (shift : Nat) (small : low < 2 ^ shift) :
    high * 2 ^ shift ||| low = high * 2 ^ shift + low := by
  rw [Nat.mul_comm]
  exact (Nat.two_pow_add_eq_or_of_lt small high).symm

theorem getUint32_toNat (a b c d : UInt8) (rest : List UInt8) :
    (getUint32 (a :: b :: c :: d :: rest)).toNat =
      a.toNat * 2 ^ 24 + (b.toNat * 2 ^ 16 + (c.toNat * 2 ^ 8 + d.toNat)) := by
  have aSmall := a.toNat_lt
  have bSmall := b.toNat_lt
  have cSmall := c.toNat_lt
  have dSmall := d.toNat_lt
  simp only [getUint32, List.getD_cons_zero, List.getD_cons_succ, UInt32.toNat_or,
    UInt32.toNat_shiftLeft, UInt8.toNat_toUInt32, UInt32.reduceToNat, Nat.reduceMod,
    Nat.shiftLeft_eq, Nat.or_assoc]
  rw [Nat.mod_eq_of_lt (by omega : a.toNat * 2 ^ 24 < 2 ^ 32),
    Nat.mod_eq_of_lt (by omega : b.toNat * 2 ^ 16 < 2 ^ 32),
    Nat.mod_eq_of_lt (by omega : c.toNat * 2 ^ 8 < 2 ^ 32),
    or_eq_add 8 dSmall, or_eq_add 16 (by omega), or_eq_add 24 (by omega)]

/-- Reading back what `put_uint32` wrote returns the value. -/
theorem getUint32_putUint32 (value : UInt32) (rest : List UInt8) :
    getUint32 (putUint32 value ++ rest) = value := by
  have mask : ∀ n, n &&& 255 = n % 256 := fun n => Nat.and_two_pow_sub_one_eq_mod n 8
  have valueSmall := value.toNat_lt
  apply UInt32.toNat_inj.mp
  simp only [putUint32, List.cons_append, List.nil_append]
  rw [getUint32_toNat]
  simp [mask, Nat.shiftRight_eq_div_pow]
  omega

@[simp] theorem length_hostBytes (size : Nat) (bits : UInt64) :
    (hostBytes size bits).length = size := by
  induction size generalizing bits with
  | zero => rfl
  | succ size ih => simp [hostBytes, ih]

/-- An integer that fits its stored bytes is read back from them. -/
theorem hostValue_hostBytes {size : Nat} (room : size ≤ 8) {bits : UInt64}
    (small : bits.toNat < 256 ^ size) : hostValue (hostBytes size bits) = bits := by
  induction size generalizing bits with
  | zero =>
      apply UInt64.toNat_inj.mp
      simp only [Nat.pow_zero, Nat.lt_one_iff] at small
      simp [hostBytes, hostValue, small]
  | succ size ih =>
      have shifted : (bits >>> 8).toNat = bits.toNat / 256 := by
        simp [Nat.shiftRight_eq_div_pow]
      have rest : (bits >>> 8).toNat < 256 ^ size := by
        rw [shifted, Nat.div_lt_iff_lt_mul (by decide)]
        rwa [Nat.pow_succ] at small
      have total := bits.toNat_lt
      rw [hostBytes, hostValue, ih (by omega) rest]
      apply UInt64.toNat_inj.mp
      have shift : (8 : UInt64).toNat % 64 = 8 := rfl
      rw [UInt64.toNat_or, UInt64.toNat_shiftLeft, shifted, shift, Nat.shiftLeft_eq,
        Nat.mod_eq_of_lt (by omega), Nat.or_comm, UInt8.toNat_toUInt64, UInt64.toNat_toUInt8,
        or_eq_add 8 (Nat.mod_lt _ (by decide))]
      omega

/-! ## Stores and loads inside a buffer -/

@[simp] theorem length_storeUint32 (buffer : List UInt8) (offset : Nat) (value : UInt32) :
    (storeUint32 buffer offset value).length = buffer.length := by
  simp [storeUint32]

/-- A load returns the integer whose host image lies at the offset. -/
theorem loadUint32_host {front : List UInt8} {offset : Nat} (at_ : front.length = offset)
    (value : UInt32) (rest : List UInt8) :
    loadUint32 (front ++ (hostUint32 value ++ rest)) offset = value := by
  subst at_
  rw [loadUint32, List.drop_left, List.take_left' (length_hostUint32 value), hostUint32,
    List.reverse_reverse]
  simpa using getUint32_putUint32 value []

/-- A store replaces the four bytes at the offset. -/
theorem storeUint32_append {front old : List UInt8} {offset : Nat}
    (at_ : front.length = offset) (four : old.length = 4) (value : UInt32) (rest : List UInt8) :
    storeUint32 (front ++ (old ++ rest)) offset value = front ++ (putUint32 value ++ rest) := by
  subst at_
  obtain ⟨a, b, c, d, rfl⟩ := List.length_eq_four.mp four
  simp [storeUint32, putUint32]

theorem getElem?_storeUint32 (buffer : List UInt8) (value : UInt32) {offset position : Nat}
    (away : position < offset ∨ offset + 4 ≤ position) :
    (storeUint32 buffer offset value)[position]? = buffer[position]? := by
  unfold storeUint32
  rw [List.getElem?_set_ne (by omega), List.getElem?_set_ne (by omega),
    List.getElem?_set_ne (by omega), List.getElem?_set_ne (by omega)]

end FlashForwarder
