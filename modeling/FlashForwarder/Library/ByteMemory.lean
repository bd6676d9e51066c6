import Mathlib.Data.List.Basic
import Mathlib.Algebra.Order.Group.Int
import Mathlib.Tactic.TypeStar

/-!
# Bytes around a buffer

A pointer into a buffer is a signed offset from its first byte.  Memory is total: what lies
outside the buffer is arbitrary, so a read that leaves the buffer is modelled, not excluded.
Machine integers are integers reduced to a two's-complement range.
-/

/-- Reduce an integer to the range of a 32-bit `int`. -/
def toInt32 (value : Int) : Int := value.bmod 4294967296

theorem toInt32_of_range {value : Int} (lower : -2147483648 ≤ value)
    (upper : value < 2147483648) : toInt32 value = value := by
  rw [toInt32, Int.bmod_def]
  split <;> omega

theorem toInt32_natCast {value : Nat} (small : value < 2147483648) :
    toInt32 (value : Int) = value := by
  apply toInt32_of_range <;> omega

/-- Bytes by signed offset from the start of a buffer. -/
abbrev Memory := Int → UInt8

namespace Memory

/-- A buffer with arbitrary bytes on both sides. -/
def ofBuffer (buffer : List UInt8) (outside : Memory) : Memory := fun address =>
  if 0 ≤ address then buffer.getD address.toNat (outside address) else outside address

/-- The `count` bytes from `address` on. -/
def read (memory : Memory) (address : Int) (count : Nat) : List UInt8 :=
  (List.range count).map fun offset : Nat => memory (address + offset)

@[simp] theorem length_read (memory : Memory) (address : Int) (count : Nat) :
    (memory.read address count).length = count := by
  simp [read]

@[simp] theorem read_zero (memory : Memory) (address : Int) : memory.read address 0 = [] := rfl

theorem read_add (memory : Memory) (address : Int) (first second : Nat) :
    memory.read address (first + second) =
      memory.read address first ++ memory.read (address + first) second := by
  simp [read, List.range_add, Function.comp_def, Int.add_assoc]

theorem ofBuffer_getElem {buffer : List UInt8} (outside : Memory) {index : Nat}
    (inside : index < buffer.length) : ofBuffer buffer outside index = buffer[index] := by
  simp [ofBuffer, inside]

/-- A read inside the buffer returns the buffer's own bytes. -/
theorem read_ofBuffer {buffer : List UInt8} {outside : Memory} {start count : Nat}
    (inside : start + count ≤ buffer.length) :
    (ofBuffer buffer outside).read start count = (buffer.drop start).take count := by
  apply List.ext_getElem
  · simp
    omega
  · intro index readBound sliceBound
    have bound : start + index < buffer.length := by
      simp at readBound
      omega
    have here := ofBuffer_getElem outside bound
    push_cast at here
    simp [read, here]

/-- The bytes from `address` on are `bytes`. -/
def Holds (memory : Memory) (address : Int) (bytes : List UInt8) : Prop :=
  memory.read address bytes.length = bytes

theorem holds_append {memory : Memory} {address : Int} {front back : List UInt8} :
    memory.Holds address (front ++ back) ↔
      memory.Holds address front ∧ memory.Holds (address + front.length) back := by
  rw [Holds, List.length_append, read_add]
  constructor
  · intro same
    exact List.append_inj same (by simp)
  · rintro ⟨first, second⟩
    rw [first, second]

theorem Holds.getElem? {memory : Memory} {address : Int} {bytes : List UInt8}
    (holds : memory.Holds address bytes) {index : Nat} (inside : index < bytes.length) :
    some (memory (address + index)) = bytes[index]? := by
  have here : (memory.read address bytes.length)[index]? = bytes[index]? := by rw [holds]
  rw [← here]
  simp [read, inside]

theorem holds_ofBuffer (buffer : List UInt8) (outside : Memory) :
    (ofBuffer buffer outside).Holds 0 buffer := by
  have whole : (ofBuffer buffer outside).read (0 : Nat) buffer.length = _ :=
    read_ofBuffer (by omega)
  simpa [Holds] using whole

end Memory
