import Mathlib.Data.Nat.Bitwise

/-!
# Bit smearing

A number or-ed with itself shifted right has a bit wherever one of the next bits is set.  Doubling
the width of that window until it covers the number leaves ones up to the highest bit.
-/

namespace BitSmear

/-- A bit of `spread` is set just if one of the `width` bits of `value` from it on is. -/
def Window (value spread width : Nat) : Prop :=
  ∀ i, spread.testBit i = true ↔ ∃ j < width, value.testBit (i + j) = true

theorem window_one (value : Nat) : Window value value 1 := by
  intro i
  constructor
  · exact fun here => ⟨0, Nat.one_pos, here⟩
  · rintro ⟨j, small, there⟩
    obtain rfl : j = 0 := by omega
    exact there

theorem Window.double {value spread width : Nat} (window : Window value spread width) :
    Window value (spread ||| spread >>> width) (2 * width) := by
  intro i
  rw [Nat.testBit_or, Nat.testBit_shiftRight, Bool.or_eq_true, window i, window (width + i)]
  constructor
  · rintro (⟨j, small, here⟩ | ⟨j, small, there⟩)
    · exact ⟨j, by omega, here⟩
    · exact ⟨width + j, by omega, by rwa [← Nat.add_assoc, Nat.add_comm i width]⟩
  · rintro ⟨j, small, here⟩
    by_cases near : j < width
    · exact .inl ⟨j, near, here⟩
    · refine .inr ⟨j - width, by omega, ?_⟩
      rwa [show width + i + (j - width) = i + j by omega]

/-- A window as wide as the number leaves ones up to its highest bit. -/
theorem Window.eq_of_lt {value spread width : Nat} (window : Window value spread width)
    (small : value < 2 ^ width) (positive : value ≠ 0) : spread = 2 ^ (value.log2 + 1) - 1 := by
  refine Nat.eq_of_testBit_eq fun i => ?_
  rw [Nat.testBit_two_pow_sub_one, Bool.eq_iff_iff, decide_eq_true_iff, window i]
  have top : value.log2 < width := (Nat.log2_lt positive).mpr small
  constructor
  · rintro ⟨j, -, here⟩
    have below := (Nat.le_log2 positive).mpr (Nat.ge_two_pow_of_testBit here)
    omega
  · intro below
    refine ⟨value.log2 - i, by omega, ?_⟩
    rw [show i + (value.log2 - i) = value.log2 by omega]
    exact Nat.testBit_log2 positive

end BitSmear
