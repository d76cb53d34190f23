import TradingStudies.OpenAddressingHashMap

/-!
# The load check

The map relies on four properties of its load check, for table sizes which
are powers of two.  The single-precision comparison has them: a power of two is
represented exactly, so only the count is rounded.
-/

namespace TradingStudies
namespace HashMap
namespace OpenAddressingHashMap

open SignificandRound

structure GrowthRule (exceeds : ℕ → ℕ → Bool) : Prop where
  zero : ∀ exponent, exceeds 0 (2 ^ exponent) = false
  mono : ∀ {count more exponent : ℕ}, count ≤ more →
    exceeds more (2 ^ exponent) = false →
      exceeds count (2 ^ exponent) = false
  double : ∀ {count exponent : ℕ}, exceeds count (2 ^ exponent) = false →
    exceeds (count + 1) (2 ^ (exponent + 1)) = false
  room : ∀ {count exponent : ℕ}, exceeds count (2 ^ exponent) = false →
    count < 2 ^ exponent

theorem exceedsLoad_eq_false_iff (count exponent : ℕ) :
    exceedsLoad count (2 ^ exponent) = false ↔
      round 24 count * 2 ^ 24 ≤ 2 ^ exponent * maxLoadFactor_ := by
  have hsize : round 24 (2 ^ exponent) = 2 ^ exponent :=
    round_two_pow 24 (by omega) exponent
  have hfactor : round 24 maxLoadFactor_ = maxLoadFactor_ :=
    round_of_lt (by decide)
  have hproduct : round 24 (maxLoadFactor_ * 2 ^ exponent) =
      2 ^ exponent * maxLoadFactor_ := by
    rw [Nat.mul_comm, round_two_pow_mul, hfactor]
  unfold exceedsLoad
  rw [hsize, hproduct, decide_eq_false_iff_not, gt_iff_lt, Nat.not_lt]

/-- The next count is at most twice a positive one, and twice as much fits
into a table twice as large. -/
theorem exceedsLoad_growthRule : GrowthRule exceedsLoad where
  zero := by
    intro exponent
    rw [exceedsLoad_eq_false_iff, round_zero, zero_mul]
    exact Nat.zero_le _
  mono := by
    intro count more exponent hle hmore
    rw [exceedsLoad_eq_false_iff] at hmore ⊢
    have hround := round_mono 24 (by omega) hle
    exact (Nat.mul_le_mul_right _ hround).trans hmore
  double := by
    intro count exponent hcount
    rw [exceedsLoad_eq_false_iff] at hcount ⊢
    rw [pow_succ' 2 exponent, mul_assoc]
    rcases Nat.eq_zero_or_pos count with hzero | hpos
    · subst hzero
      have hone : round 24 (0 + 1) = 1 := round_of_lt (by decide)
      have hload : 2 ^ 24 ≤ 2 * maxLoadFactor_ := by decide
      have hpow := Nat.one_le_two_pow (n := exponent)
      calc
        round 24 (0 + 1) * 2 ^ 24 = 1 * 2 ^ 24 := by rw [hone]
        _ ≤ 2 ^ exponent * (2 * maxLoadFactor_) := Nat.mul_le_mul hpow hload
        _ = 2 * (2 ^ exponent * maxLoadFactor_) := by ring
    · have hle : count + 1 ≤ 2 * count := by omega
      have hround := round_mono 24 (by omega) hle
      rw [round_two_mul] at hround
      calc
        round 24 (count + 1) * 2 ^ 24 ≤ 2 * round 24 count * 2 ^ 24 :=
          Nat.mul_le_mul_right _ hround
        _ = 2 * (round 24 count * 2 ^ 24) := mul_assoc _ _ _
        _ ≤ 2 * (2 ^ exponent * maxLoadFactor_) :=
          Nat.mul_le_mul_left _ hcount
  room := by
    intro count exponent hcount
    rw [exceedsLoad_eq_false_iff] at hcount
    by_contra hfull
    have hround := round_mono 24 (by omega) (Nat.le_of_not_lt hfull)
    rw [round_two_pow 24 (by omega)] at hround
    have hload : maxLoadFactor_ < 2 ^ 24 := by decide
    have hless := Nat.mul_lt_mul_of_pos_left hload (Nat.two_pow_pos exponent)
    have hmore := (Nat.mul_le_mul_right (2 ^ 24) hround).trans hcount
    exact absurd hmore (Nat.not_le_of_lt hless)

/-! ## The comparison over the rationals -/

/-- The load check without rounding, with the factor 0.7. -/
def exceedsExact (count tableSize : ℕ) : Bool :=
  decide ((count : ℚ) > (tableSize : ℚ) * (7 / 10))

theorem exceedsExact_eq_false_iff (count tableSize : ℕ) :
    exceedsExact count tableSize = false ↔
      (count : ℚ) ≤ 7 / 10 * (tableSize : ℚ) := by
  unfold exceedsExact
  rw [decide_eq_false_iff_not, gt_iff_lt, not_lt, mul_comm]

theorem exceedsExact_eq_false_iff_nat (count tableSize : ℕ) :
    exceedsExact count tableSize = false ↔ 10 * count ≤ 7 * tableSize := by
  rw [exceedsExact_eq_false_iff, div_mul_eq_mul_div, le_div_iff₀ (by norm_num),
    mul_comm]
  norm_cast

theorem exceedsExact_growthRule : GrowthRule exceedsExact where
  zero := by
    intro exponent
    rw [exceedsExact_eq_false_iff_nat]
    exact Nat.zero_le _
  mono := by
    intro count more exponent hle hmore
    rw [exceedsExact_eq_false_iff_nat] at hmore ⊢
    omega
  double := by
    intro count exponent hcount
    have hpos := Nat.two_pow_pos exponent
    rw [exceedsExact_eq_false_iff_nat] at hcount ⊢
    rw [pow_succ]
    omega
  room := by
    intro count exponent hcount
    have hpos := Nat.two_pow_pos exponent
    rw [exceedsExact_eq_false_iff_nat] at hcount
    omega

end OpenAddressingHashMap
end HashMap
end TradingStudies
