import FlashForwarder.Allocator.MessageAllocator
import FlashForwarder.Library.BitSmear

/-!
# Size classes

The smeared capacity, multiplied and looked up in the table, gives its logarithm; the list at that
index has messages of at least the capacity.
-/

namespace FlashForwarder

open BitSmear

namespace MessageAllocator

theorem toNat_or_shiftRight (v w : UInt32) (small : w.toNat < 32) :
    (v ||| v >>> w).toNat = v.toNat ||| v.toNat >>> w.toNat := by
  rw [UInt32.toNat_or, UInt32.toNat_shiftRight, Nat.mod_eq_of_lt small]

/-- Smearing sets every bit below the highest one. -/
theorem toNat_smear {v : UInt32} (positive : v ≠ 0) :
    (smear v).toNat = 2 ^ (v.toNat.log2 + 1) - 1 := by
  have window : Window v.toNat (smear v).toNat 32 := by
    unfold smear
    simp only [toNat_or_shiftRight _ 16 (by decide), toNat_or_shiftRight _ 8 (by decide),
      toNat_or_shiftRight _ 4 (by decide), toNat_or_shiftRight _ 2 (by decide),
      toNat_or_shiftRight _ 1 (by decide)]
    exact (window_one v.toNat).double.double.double.double.double
  refine window.eq_of_lt v.toNat_lt fun zero => positive ?_
  exact UInt32.toNat_inj.mp zero

/-- The table gives back the logarithm of each power of two, less one. -/
theorem bitPosition_ones : ∀ log < 32, bitPosition (UInt32.ofNat (2 ^ (log + 1) - 1)) = log := by
  decide +kernel

theorem bitPosition_smear {v : UInt32} (positive : v ≠ 0) :
    bitPosition (smear v) = v.toNat.log2 := by
  have nonzero : v.toNat ≠ 0 := fun zero => positive (UInt32.toNat_inj.mp zero)
  have ones := bitPosition_ones v.toNat.log2 ((Nat.log2_lt nonzero).mpr v.toNat_lt)
  rwa [← toNat_smear positive, UInt32.ofNat_toNat] at ones

variable {capacity : Int}

/-- The index is the logarithm of the capacity, less 5, or 0. -/
theorem indexOf_eq (positive : 0 < capacity) (small : capacity < 4294967296) :
    (indexOf capacity : Int) = max 0 (capacity.toNat.log2 - 5) := by
  have value : (UInt32.ofInt capacity).toNat = capacity.toNat := by
    rw [UInt32.ofInt, UInt32.toNat_ofNat']
    omega
  have nonzero : UInt32.ofInt capacity ≠ 0 := by
    intro zero
    rw [zero] at value
    have : capacity.toNat = 0 := value.symm
    omega
  rw [indexOf, bitPosition_smear nonzero, value]
  rw [allocateStart]
  split <;> omega

theorem indexOf_zero : indexOf 0 = 0 := by decide

/-- A capacity that is not too big has a list, whose messages hold it. -/
theorem indexOf_fits (nonneg : 0 ≤ capacity) (small : capacity ≤ 2 ^ allocateStop) :
    indexOf capacity < slots ∧ capacity ≤ 2 ^ (allocateStart + indexOf capacity + 1) := by
  rcases Int.lt_or_eq_of_le nonneg with positive | rfl
  · have bound : capacity ≤ 4194304 := small
    have index := indexOf_eq positive (by omega)
    have nonzero : capacity.toNat ≠ 0 := by omega
    have log : capacity.toNat.log2 < 23 := (Nat.log2_lt nonzero).mpr (by omega)
    have above : capacity.toNat < 2 ^ (capacity.toNat.log2 + 1) := Nat.lt_log2_self
    refine ⟨by rw [slots, allocateStop, allocateStart]; omega, ?_⟩
    have wider : 2 ^ (capacity.toNat.log2 + 1) ≤ 2 ^ (allocateStart + indexOf capacity + 1) := by
      refine Nat.pow_le_pow_right (by decide) ?_
      rw [allocateStart]
      omega
    have cast : ((2 ^ (allocateStart + indexOf capacity + 1) : Nat) : Int) =
        2 ^ (allocateStart + indexOf capacity + 1) := by
      norm_cast
    omega
  · rw [indexOf_zero]
    decide

end MessageAllocator

end FlashForwarder
