import Mathlib.Data.List.Basic
import Mathlib.Order.Bounds.Basic
import Mathlib.Tactic.Ring

/-!
# Base-128 numbers

A number as a run of seven-bit groups, least significant first.  Every byte but the last has its
top bit set, so a run ends where it says it ends.
-/

namespace Varint

/-- `bytes` is one complete run with value `value`. -/
inductive IsVarint : List UInt8 → Nat → Prop
  | last {byte : UInt8} : byte.toNat < 128 → IsVarint [byte] byte.toNat
  | more {byte : UInt8} {rest : List UInt8} {value : Nat} : 128 ≤ byte.toNat →
      IsVarint rest value → IsVarint (byte :: rest) (byte.toNat - 128 + 128 * value)

/-- The group of weight `128 ^ index`, marked as not the last. -/
def group (value index : Nat) : UInt8 := UInt8.ofNat (value / 128 ^ index % 128 + 128)

/-- The group of weight `128 ^ index`, marked as the last. -/
def lastGroup (value index : Nat) : UInt8 := UInt8.ofNat (value / 128 ^ index % 128)

theorem toNat_group (value index : Nat) :
    (group value index).toNat = value / 128 ^ index % 128 + 128 := by
  rw [group, UInt8.toNat_ofNat', Nat.mod_eq_of_lt]
  omega

theorem toNat_lastGroup (value index : Nat) :
    (lastGroup value index).toNat = value / 128 ^ index % 128 := by
  rw [lastGroup, UInt8.toNat_ofNat', Nat.mod_eq_of_lt]
  omega

theorem IsVarint.ne_nil {bytes : List UInt8} {value : Nat} (run : IsVarint bytes value) :
    bytes ≠ [] := by
  cases run <;> simp

theorem IsVarint.length_pos {bytes : List UInt8} {value : Nat} (run : IsVarint bytes value) :
    0 < bytes.length := List.length_pos_of_ne_nil run.ne_nil

/-- A run of `count` groups stays below `128 ^ count`. -/
theorem IsVarint.lt_pow {bytes : List UInt8} {value : Nat} (run : IsVarint bytes value) :
    value < 128 ^ bytes.length := by
  induction run with
  | last small => simpa using small
  | @more byte rest value high _ ih =>
      have := byte.toNat_lt
      rw [List.length_cons, Nat.pow_succ]
      omega

/-- The groups of a number that fits `count + 1` of them. -/
theorem isVarint_groups (count : Nat) {value : Nat} (small : value < 128 ^ (count + 1)) :
    IsVarint ((List.range count).map (group value) ++ [lastGroup value count]) value := by
  induction count generalizing value with
  | zero =>
      have eq : (lastGroup value 0).toNat = value := by
        rw [toNat_lastGroup]
        simpa using small
      have run := IsVarint.last (by rw [eq]; simpa using small)
      rwa [eq] at run
  | succ count ih =>
      have shorter : value / 128 < 128 ^ (count + 1) := by
        rw [Nat.pow_succ] at small
        exact (Nat.div_lt_iff_lt_mul (by decide)).mpr small
      have shift : ∀ index, value / 128 ^ (index + 1) = value / 128 / 128 ^ index := fun index => by
        rw [Nat.pow_succ', Nat.div_div_eq_div_mul]
      have tail : ∀ index, group value (index + 1) = group (value / 128) index := fun index => by
        rw [group, group, shift]
      have last : lastGroup value (count + 1) = lastGroup (value / 128) count := by
        rw [lastGroup, lastGroup, shift]
      have high : 128 ≤ (group value 0).toNat := by
        rw [toNat_group]
        omega
      have run := IsVarint.more high (ih shorter)
      have total : (group value 0).toNat - 128 + 128 * (value / 128) = value := by
        rw [toNat_group]
        simp only [Nat.pow_zero, Nat.div_one]
        omega
      rw [total] at run
      rw [List.range_succ_eq_map, List.map_cons, List.map_map, last]
      simpa [Function.comp_def, tail] using run

/-- The first groups of a longer run are all marked, and the rest is a run of its own. -/
theorem IsVarint.drop {bytes : List UInt8} {value : Nat} (run : IsVarint bytes value)
    (count : Nat) (longer : count < bytes.length) :
    IsVarint (bytes.drop count) (value / 128 ^ count) := by
  induction count generalizing bytes value with
  | zero => simpa using run
  | succ count ih =>
      cases run with
      | last => simp at longer
      | @more byte rest value high run =>
          have := byte.toNat_lt
          rw [List.drop_succ_cons, Nat.pow_succ', ← Nat.div_div_eq_div_mul,
            show (byte.toNat - 128 + 128 * value) / 128 = value by omega]
          exact ih run (by simpa using longer)

theorem IsVarint.eq_of_length {bytes bytes' : List UInt8} {value value' : Nat}
    (run : IsVarint bytes value) (run' : IsVarint bytes' value') (same : value = value')
    (length : bytes.length = bytes'.length) : bytes = bytes' := by
  induction run generalizing bytes' value' with
  | last small =>
      cases run' with
      | last small' => rw [UInt8.toNat_inj.mp same]
      | more high' rest' =>
          have positive := rest'.length_pos
          simp only [List.length_cons, List.length_nil] at length
          omega
  | @more byte rest value high run ih =>
      cases run' with
      | last small' =>
          have positive := run.length_pos
          simp only [List.length_cons, List.length_nil] at length
          omega
      | @more byte' rest' value' high' run' =>
          have bound := byte.toNat_lt
          have bound' := byte'.toNat_lt
          have first : byte = byte' := UInt8.toNat_inj.mp (by omega)
          have others : rest = rest' := ih run' (by omega) (by simpa using length)
          rw [first, others]

/-! ## The number of groups -/

/-- The least number of groups that hold the value; zero takes one. -/
def IsGroupCount (value count : Nat) : Prop :=
  if value = 0 then count = 1 else IsLeast {n | value < 128 ^ n} count

theorem isGroupCount_succ_iff {value count : Nat} : IsGroupCount value (count + 1) ↔
    value < 128 ^ (count + 1) ∧ (count = 0 ∨ 128 ^ count ≤ value) := by
  rw [IsGroupCount]
  by_cases zero : value = 0
  · have positive : ∀ n, 0 < 128 ^ n := fun n => Nat.pow_pos (by decide)
    have above : ¬128 ^ count ≤ 0 := Nat.not_le.mpr (positive count)
    simp [zero, positive, above]
  · rw [if_neg zero]
    constructor
    · rintro ⟨fits, least⟩
      refine ⟨fits, or_iff_not_imp_left.mpr fun some_ => ?_⟩
      by_contra less
      have fewer : count + 1 ≤ count := least (Nat.lt_of_not_le less)
      omega
    · rintro ⟨fits, needed⟩
      refine ⟨fits, fun n enough => ?_⟩
      by_contra less
      have below : 128 ^ n ≤ 128 ^ count := Nat.pow_le_pow_right (by decide) (by omega)
      have here : value < 128 ^ n := enough
      rcases needed with rfl | needed
      · rw [Nat.pow_zero] at below
        omega
      · omega

theorem IsGroupCount.lt_pow {value count : Nat} (least : IsGroupCount value count) :
    value < 128 ^ count := by
  unfold IsGroupCount at least
  split at least
  · rename_i zero
    rw [zero, least]
    decide
  · exact least.1

theorem IsGroupCount.le_of_lt_pow {value count n : Nat} (least : IsGroupCount value count)
    (positive : 0 < n) (fits : value < 128 ^ n) : count ≤ n := by
  unfold IsGroupCount at least
  split at least
  · omega
  · exact least.2 fits

theorem IsGroupCount.pos {value count : Nat} (least : IsGroupCount value count) : 0 < count := by
  unfold IsGroupCount at least
  split at least
  · omega
  · rename_i some_
    have fits : value < 128 ^ count := least.1
    by_contra none
    rw [Nat.eq_zero_of_not_pos none, Nat.pow_zero] at fits
    omega

theorem IsGroupCount.unique {value count count' : Nat} (least : IsGroupCount value count)
    (least' : IsGroupCount value count') : count = count' :=
  Nat.le_antisymm (least.le_of_lt_pow least'.pos least'.lt_pow)
    (least'.le_of_lt_pow least.pos least.lt_pow)

end Varint
