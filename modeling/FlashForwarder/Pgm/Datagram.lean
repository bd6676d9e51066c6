import FlashForwarder.Wire

/-!
# Datagrams

A datagram is a 16-bit word, a 32-bit index and a payload.  The low 13 bits of the word say where in
the payload a batch begins, the high bits how batches are compressed.
-/

namespace FlashForwarder

/-- `kOffsetBitCount` -/
def kOffsetBitCount : Nat := 13

/-- `kNonExistOffset` -/
def kNonExistOffset : UInt16 := 0x1FFF

/-- `sizeof (uint16_t) + sizeof (uint32_t)` -/
def headerSize : Nat := 6

/-- The bytes of a 16-bit integer as the host stores it. -/
def hostUint16 (value : UInt16) : List UInt8 := hostBytes 2 value.toUInt64

/-- Load a 16-bit integer of host byte order at an offset. -/
def loadUint16 (buffer : List UInt8) (offset : Nat) : UInt16 :=
  (hostValue ((buffer.drop offset).take 2)).toUInt16

/-- A datagram with its header in front. -/
def datagram (word : UInt16) (index : UInt32) (payload : List UInt8) : List UInt8 :=
  hostUint16 word ++ (hostUint32 index ++ payload)

@[simp] theorem length_hostUint16 (value : UInt16) : (hostUint16 value).length = 2 :=
  length_hostBytes 2 _

/-- The offset that a datagram tells. -/
def offsetOf (bytes : List UInt8) : UInt16 := loadUint16 bytes 0 &&& kNonExistOffset

/-- The index of a datagram. -/
def indexOf (bytes : List UInt8) : UInt32 := loadUint32 bytes 2

/-- The bytes behind the header. -/
def payloadOf (bytes : List UInt8) : List UInt8 := bytes.drop headerSize

section

variable (word : UInt16) (index : UInt32) (payload : List UInt8)

@[simp] theorem offsetOf_datagram : offsetOf (datagram word index payload) =
    word &&& kNonExistOffset := by
  have small : word.toUInt64.toNat < 256 ^ 2 := by
    have := word.toNat_lt
    simpa using this
  rw [offsetOf, loadUint16, List.drop_zero, datagram, List.take_left' (length_hostUint16 word),
    hostUint16, hostValue_hostBytes (by omega) small, UInt16.toUInt16_toUInt64]

@[simp] theorem indexOf_datagram : indexOf (datagram word index payload) = index :=
  loadUint32_host (length_hostUint16 word) index payload

@[simp] theorem payloadOf_datagram : payloadOf (datagram word index payload) = payload := by
  rw [payloadOf, datagram, ← List.append_assoc]
  exact List.drop_left' (by simp [headerSize])

theorem headerSize_le_datagram : headerSize ≤ (datagram word index payload).length := by
  simp only [datagram, List.length_append, length_hostUint16, length_hostUint32, headerSize]
  omega

end

/-! ## The offset in the word -/

theorem toNat_and_nonExist (word : UInt16) :
    (word &&& kNonExistOffset).toNat = word.toNat % 8192 := by
  rw [UInt16.toNat_and]
  exact Nat.and_two_pow_sub_one_eq_mod word.toNat 13

/-- A mask in the high bits leaves the offset as it is. -/
theorem toNat_marked {mask : UInt16} (high : mask &&& kNonExistOffset = 0) {offset : Nat}
    (small : offset < 8192) :
    ((UInt16.ofNat offset ||| mask) &&& kNonExistOffset).toNat = offset := by
  have apart : mask.toNat % 8192 = 0 := by
    rw [← toNat_and_nonExist, high]
    rfl
  rw [UInt16.toNat_and, UInt16.toNat_or, show kNonExistOffset.toNat = 2 ^ 13 - 1 from rfl,
    Nat.and_two_pow_sub_one_eq_mod, Nat.or_mod_two_pow]
  simp [apart, Nat.mod_eq_of_lt small, Nat.mod_eq_of_lt (show offset < 65536 by omega)]

end FlashForwarder
