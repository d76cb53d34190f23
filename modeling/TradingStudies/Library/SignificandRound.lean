import Mathlib

/-!
# Rounding a natural number to a fixed number of digits

A binary floating-point format keeps `digits` binary digits of a number and
rounds to nearest, a tie going to the even significand.  Rounding is monotone,
it commutes with powers of two, and it leaves a number of at most `digits`
digits alone.
-/

namespace SignificandRound

/-- `n / unit` to the nearest integer, ties to even. -/
def nearest (n unit : ℕ) : ℕ :=
  if 2 * (n % unit) > unit ∨ (2 * (n % unit) = unit ∧ n / unit % 2 = 1) then
    n / unit + 1
  else
    n / unit

theorem nearest_one (n : ℕ) : nearest n 1 = n := by
  simp [nearest, Nat.mod_one]

theorem nearest_scale {factor : ℕ} (hfactor : 0 < factor) (n unit : ℕ) :
    nearest (factor * n) (factor * unit) = nearest n unit := by
  have hdouble : 2 * (factor * (n % unit)) = factor * (2 * (n % unit)) := by
    ring
  unfold nearest
  rw [Nat.mul_div_mul_left _ _ hfactor, Nat.mul_mod_mul_left, hdouble]
  simp only [gt_iff_lt, Nat.mul_lt_mul_left hfactor,
    Nat.mul_right_inj hfactor.ne']

theorem nearest_mono {m n : ℕ} (unit : ℕ) (hle : m ≤ n) :
    nearest m unit ≤ nearest n unit := by
  have hquotient : m / unit ≤ n / unit := Nat.div_le_div_right hle
  have hm := Nat.div_add_mod m unit
  have hn := Nat.div_add_mod n unit
  unfold nearest
  rcases Nat.eq_or_lt_of_le hquotient with heq | hlt
  · -- the quotients agree, so the remainders are in order
    rw [heq] at hm ⊢
    split_ifs <;> omega
  · split_ifs <;> omega

@[simp] theorem nearest_zero (unit : ℕ) : nearest 0 unit = 0 := by
  simp [nearest]

theorem nearest_two_pow {power exponent : ℕ} (hle : power ≤ exponent) :
    nearest (2 ^ exponent) (2 ^ power) * 2 ^ power = 2 ^ exponent := by
  have hsplit : 2 ^ power * 2 ^ (exponent - power) = 2 ^ exponent := by
    rw [← pow_add, Nat.add_sub_cancel' hle]
  have hnearest : nearest (2 ^ exponent) (2 ^ power) =
      2 ^ (exponent - power) := by
    calc
      nearest (2 ^ exponent) (2 ^ power) =
          nearest (2 ^ power * 2 ^ (exponent - power)) (2 ^ power * 1) := by
            rw [hsplit, mul_one]
      _ = 2 ^ (exponent - power) := by
            rw [nearest_scale (Nat.two_pow_pos power), nearest_one]
  rw [hnearest, mul_comm, hsplit]

/-- The weight of the last digit kept. -/
def ulp (digits n : ℕ) : ℕ := 2 ^ (Nat.log 2 n + 1 - digits)

def round (digits n : ℕ) : ℕ := nearest n (ulp digits n) * ulp digits n

@[simp] theorem round_zero (digits : ℕ) : round digits 0 = 0 := by
  simp [round]

theorem round_of_lt {digits n : ℕ} (hlt : n < 2 ^ digits) :
    round digits n = n := by
  rcases Nat.eq_zero_or_pos n with hzero | hpos
  · subst hzero
    exact round_zero digits
  · have hlog := (Nat.log_lt_iff_lt_pow Nat.one_lt_two hpos.ne').mpr hlt
    have hulp : ulp digits n = 1 := by
      rw [ulp, Nat.sub_eq_zero_of_le hlog, pow_zero]
    rw [round, hulp, nearest_one, mul_one]

theorem round_two_mul (digits n : ℕ) :
    round digits (2 * n) = 2 * round digits n := by
  rcases Nat.lt_or_ge (2 * n) (2 ^ digits) with hsmall | hlarge
  · rw [round_of_lt hsmall, round_of_lt (by omega)]
  rcases Nat.eq_zero_or_pos n with hzero | hpos
  · subst hzero
    rw [mul_zero, round_zero, mul_zero]
  · have hlog : Nat.log 2 (2 * n) = Nat.log 2 n + 1 := by
      rw [Nat.mul_comm, Nat.log_mul_base Nat.one_lt_two hpos.ne']
    have hdigits : digits ≤ Nat.log 2 n + 1 := by
      rw [← hlog]
      exact Nat.le_log_of_pow_le Nat.one_lt_two hlarge
    have hulp : ulp digits (2 * n) = 2 * ulp digits n := by
      unfold ulp
      rw [hlog, ← pow_succ']
      congr 1
      omega
    rw [round, hulp, nearest_scale Nat.two_pos, round]
    ring

theorem round_two_pow_mul (digits exponent n : ℕ) :
    round digits (2 ^ exponent * n) = 2 ^ exponent * round digits n := by
  induction exponent with
  | zero => simp
  | succ exponent ih =>
      rw [pow_succ', mul_assoc, round_two_mul, ih, mul_assoc]

theorem round_two_pow (digits : ℕ) (hdigits : 0 < digits) (exponent : ℕ) :
    round digits (2 ^ exponent) = 2 ^ exponent := by
  have hone : round digits 1 = 1 :=
    round_of_lt (Nat.one_lt_two_pow hdigits.ne')
  calc
    round digits (2 ^ exponent) = round digits (2 ^ exponent * 1) := by
      rw [mul_one]
    _ = 2 ^ exponent := by rw [round_two_pow_mul, hone, mul_one]

/-- Numbers of the same length share their last digit; a shorter number is
rounded at most up to the power of two between the two. -/
theorem round_mono (digits : ℕ) {m n : ℕ} (hdigits : 0 < digits)
    (hle : m ≤ n) :
    round digits m ≤ round digits n := by
  have hlog : Nat.log 2 m ≤ Nat.log 2 n := Nat.log_mono_right hle
  rcases Nat.eq_or_lt_of_le hlog with heq | hlt
  · have hulp : ulp digits m = ulp digits n := by rw [ulp, ulp, heq]
    unfold round
    rw [hulp]
    exact Nat.mul_le_mul_right _ (nearest_mono _ hle)
  · have hpos : n ≠ 0 := by
      intro hzero
      subst hzero
      simp at hlt
    have hbelow : m ≤ 2 ^ Nat.log 2 n :=
      (Nat.lt_pow_of_log_lt Nat.one_lt_two hlt).le
    have habove : 2 ^ Nat.log 2 n ≤ n := Nat.pow_log_le_self 2 hpos
    calc
      round digits m ≤
          nearest (2 ^ Nat.log 2 n) (ulp digits m) * ulp digits m :=
            Nat.mul_le_mul_right _ (nearest_mono _ hbelow)
      _ = 2 ^ Nat.log 2 n := nearest_two_pow (by omega)
      _ = nearest (2 ^ Nat.log 2 n) (ulp digits n) * ulp digits n :=
            (nearest_two_pow (by omega)).symm
      _ ≤ round digits n := Nat.mul_le_mul_right _ (nearest_mono _ habove)

end SignificandRound
