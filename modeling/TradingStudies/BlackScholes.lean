import Mathlib

/-!
# The Black-Scholes formulas of the option pricer

`OptionPricer/pricing.py` over the real numbers.  The distribution
`scipy.stats.norm` is a parameter; what is used of it is the symmetry of its
distribution function, which `standardNormal` has.

A call and a put with the same terms differ by a forward contract, so the
difference of their prices is `S - K * exp(-r * T)`, and each greek of the
difference is a derivative of that expression, with the scaling of the code.
-/

namespace TradingStudies
namespace OptionPricer

noncomputable section

/-- The functions of `scipy.stats.norm` that are called. -/
structure Norm where
  cdf : ℝ → ℝ
  pdf : ℝ → ℝ

def d1 (S K T r sigma : ℝ) : ℝ :=
  (Real.log (S / K) + (r + 0.5 * sigma ^ 2) * T) / (sigma * Real.sqrt T)

def d2 (S K T r sigma : ℝ) : ℝ := d1 S K T r sigma - sigma * Real.sqrt T

def blackScholesPrice (norm : Norm) (S K T r sigma : ℝ)
    (option_type : String) : ℝ :=
  if option_type = "call" then
    S * norm.cdf (d1 S K T r sigma) -
      K * Real.exp (-r * T) * norm.cdf (d2 S K T r sigma)
  else
    K * Real.exp (-r * T) * norm.cdf (-d2 S K T r sigma) -
      S * norm.cdf (-d1 S K T r sigma)

structure Greeks where
  delta : ℝ
  gamma : ℝ
  vega : ℝ
  theta : ℝ
  rho : ℝ

def blackScholesGreeks (norm : Norm) (S K T r sigma : ℝ)
    (option_type : String) : Greeks where
  delta :=
    if option_type = "call" then norm.cdf (d1 S K T r sigma)
    else -norm.cdf (-d1 S K T r sigma)
  gamma := norm.pdf (d1 S K T r sigma) / (S * sigma * Real.sqrt T)
  vega := S * norm.pdf (d1 S K T r sigma) * Real.sqrt T
  theta :=
    (-(S * norm.pdf (d1 S K T r sigma) * sigma) / (2 * Real.sqrt T) -
      r * K * Real.exp (-r * T) *
        norm.cdf (if option_type = "call" then d2 S K T r sigma
          else -d2 S K T r sigma)) / 365
  rho :=
    K * T * Real.exp (-r * T) *
      norm.cdf (if option_type = "call" then d2 S K T r sigma
        else -d2 S K T r sigma) / 100

/-! ## Put-call parity -/

/-- The value of the forward contract. -/
def forwardValue (S K T r : ℝ) : ℝ := S - K * Real.exp (-r * T)

theorem hasDerivAt_forwardValue_spot (S K T r : ℝ) :
    HasDerivAt (fun spot => forwardValue spot K T r) 1 S := by
  unfold forwardValue
  exact (hasDerivAt_id S).sub_const _

theorem hasDerivAt_forwardValue_time (S K T r : ℝ) :
    HasDerivAt (fun time => forwardValue S K time r)
      (r * K * Real.exp (-r * T)) T := by
  have hexponent : HasDerivAt (fun time : ℝ => -r * time) (-r) T := by
    simpa using (hasDerivAt_id T).const_mul (-r)
  have hvalue := (hexponent.exp.const_mul K).const_sub S
  apply hvalue.congr_deriv
  ring

theorem hasDerivAt_forwardValue_rate (S K T r : ℝ) :
    HasDerivAt (fun rate => forwardValue S K T rate)
      (K * T * Real.exp (-r * T)) r := by
  have hexponent : HasDerivAt (fun rate : ℝ => -rate * T) (-T) r := by
    simpa using ((hasDerivAt_id r).neg).mul_const T
  have hvalue := (hexponent.exp.const_mul K).const_sub S
  apply hvalue.congr_deriv
  ring

/-- Call and put agree with the forward contract and its derivatives: by the
spot price, by time (per day, as time runs out) and by the rate (per percent).
Gamma and vega of the contract are zero. -/
structure RespectsParity (norm : Norm) (S K T r sigma : ℝ) (put : String) :
    Prop where
  price : blackScholesPrice norm S K T r sigma "call" -
    blackScholesPrice norm S K T r sigma put = S - K * Real.exp (-r * T)
  delta : (blackScholesGreeks norm S K T r sigma "call").delta -
    (blackScholesGreeks norm S K T r sigma put).delta = 1
  gamma : (blackScholesGreeks norm S K T r sigma "call").gamma =
    (blackScholesGreeks norm S K T r sigma put).gamma
  vega : (blackScholesGreeks norm S K T r sigma "call").vega =
    (blackScholesGreeks norm S K T r sigma put).vega
  theta : (blackScholesGreeks norm S K T r sigma "call").theta -
    (blackScholesGreeks norm S K T r sigma put).theta =
      -r * K * Real.exp (-r * T) / 365
  rho : (blackScholesGreeks norm S K T r sigma "call").rho -
    (blackScholesGreeks norm S K T r sigma put).rho =
      K * T * Real.exp (-r * T) / 100

/-- Parity of the greeks is the derivative of parity of the prices. -/
theorem RespectsParity.hasDerivAt {norm : Norm} {S K T r sigma : ℝ}
    {put : String} (hparity : RespectsParity norm S K T r sigma put) :
    HasDerivAt (fun spot => forwardValue spot K T r)
        ((blackScholesGreeks norm S K T r sigma "call").delta -
          (blackScholesGreeks norm S K T r sigma put).delta) S ∧
      HasDerivAt (fun time => forwardValue S K time r)
        (-(365 * ((blackScholesGreeks norm S K T r sigma "call").theta -
          (blackScholesGreeks norm S K T r sigma put).theta))) T ∧
      HasDerivAt (fun rate => forwardValue S K T rate)
        (100 * ((blackScholesGreeks norm S K T r sigma "call").rho -
          (blackScholesGreeks norm S K T r sigma put).rho)) r := by
  refine ⟨?_, ?_, ?_⟩
  · rw [hparity.delta]
    exact hasDerivAt_forwardValue_spot S K T r
  · rw [hparity.theta]
    apply (hasDerivAt_forwardValue_time S K T r).congr_deriv
    ring
  · rw [hparity.rho]
    apply (hasDerivAt_forwardValue_rate S K T r).congr_deriv
    ring

section Parity

variable {norm : Norm} {put : String}

theorem price_parity (hsymm : ∀ x, norm.cdf (-x) = 1 - norm.cdf x)
    (hput : put ≠ "call") (S K T r sigma : ℝ) :
    blackScholesPrice norm S K T r sigma "call" -
      blackScholesPrice norm S K T r sigma put =
        forwardValue S K T r := by
  unfold blackScholesPrice forwardValue
  rw [if_pos rfl, if_neg hput, hsymm, hsymm]
  ring

theorem delta_parity (hsymm : ∀ x, norm.cdf (-x) = 1 - norm.cdf x)
    (hput : put ≠ "call") (S K T r sigma : ℝ) :
    (blackScholesGreeks norm S K T r sigma "call").delta -
      (blackScholesGreeks norm S K T r sigma put).delta = 1 := by
  simp only [blackScholesGreeks, if_true, if_neg hput]
  rw [hsymm]
  ring

/-- The put branch of theta has the sign of the call branch. -/
theorem theta_difference (hsymm : ∀ x, norm.cdf (-x) = 1 - norm.cdf x)
    (hput : put ≠ "call") (S K T r sigma : ℝ) :
    (blackScholesGreeks norm S K T r sigma "call").theta -
      (blackScholesGreeks norm S K T r sigma put).theta =
        -r * K * Real.exp (-r * T) / 365 *
          (2 * norm.cdf (d2 S K T r sigma) - 1) := by
  simp only [blackScholesGreeks, if_true, if_neg hput]
  rw [hsymm]
  ring

theorem rho_difference (hsymm : ∀ x, norm.cdf (-x) = 1 - norm.cdf x)
    (hput : put ≠ "call") (S K T r sigma : ℝ) :
    (blackScholesGreeks norm S K T r sigma "call").rho -
      (blackScholesGreeks norm S K T r sigma put).rho =
        K * T * Real.exp (-r * T) / 100 *
          (2 * norm.cdf (d2 S K T r sigma) - 1) := by
  simp only [blackScholesGreeks, if_true, if_neg hput]
  rw [hsymm]
  ring

theorem d2_eq {T sigma : ℝ} (hT : 0 < T) (hsigma : 0 < sigma) (S K r : ℝ) :
    d2 S K T r sigma =
      (Real.log (S / K) + (r - sigma ^ 2 / 2) * T) /
        (sigma * Real.sqrt T) := by
  have hroot : 0 < Real.sqrt T := Real.sqrt_pos.mpr hT
  have hsquare : Real.sqrt T ^ 2 = T := Real.sq_sqrt hT.le
  unfold d2 d1
  rw [eq_div_iff (by positivity), sub_mul, div_mul_cancel₀ _ (by positivity)]
  calc
    Real.log (S / K) + (r + 0.5 * sigma ^ 2) * T -
          sigma * Real.sqrt T * (sigma * Real.sqrt T) =
        Real.log (S / K) + (r + 0.5 * sigma ^ 2) * T -
          sigma ^ 2 * Real.sqrt T ^ 2 := by ring
    _ = Real.log (S / K) + (r - sigma ^ 2 / 2) * T := by
      rw [hsquare]
      ring

theorem RespectsParity.cdf_d2 (hsymm : ∀ x, norm.cdf (-x) = 1 - norm.cdf x)
    (hput : put ≠ "call") {S K T r sigma : ℝ} (hK : 0 < K) (hT : 0 < T)
    (hparity : RespectsParity norm S K T r sigma put) :
    norm.cdf (d2 S K T r sigma) = 1 := by
  have hrho := hparity.rho
  rw [rho_difference hsymm hput] at hrho
  have hpos : K * T * Real.exp (-r * T) / 100 ≠ 0 := by positivity
  have hone : 2 * norm.cdf (d2 S K T r sigma) - 1 = 1 :=
    mul_left_cancel₀ hpos (hrho.trans (mul_one _).symm)
  linarith

/-- The greeks respect put-call parity exactly where the distribution function
takes the value one at `d2`. -/
theorem blackScholesGreeks_parity_iff
    (norm : Norm) (hsymm : ∀ x, norm.cdf (-x) = 1 - norm.cdf x)
    (S K T r sigma : ℝ) (hK : 0 < K) (hT : 0 < T) (hsigma : 0 < sigma)
    (put : String) (hput : put ≠ "call") :
    RespectsParity norm S K T r sigma put ↔
      norm.cdf ((Real.log (S / K) + (r - sigma ^ 2 / 2) * T) /
        (sigma * Real.sqrt T)) = 1 := by
  rw [← d2_eq hT hsigma]
  constructor
  · intro hparity
    exact hparity.cdf_d2 hsymm hput hK hT
  · intro hone
    constructor
    · exact price_parity hsymm hput S K T r sigma
    · exact delta_parity hsymm hput S K T r sigma
    · rfl
    · rfl
    · rw [theta_difference hsymm hput, hone]
      ring
    · rw [rho_difference hsymm hput, hone]
      ring

end Parity

/-! ## The standard normal distribution -/

open MeasureTheory ProbabilityTheory

/-- The standard normal distribution, which `scipy.stats.norm` computes in
floating point. -/
def standardNormal : Norm where
  cdf := cdf (gaussianReal 0 1)
  pdf := gaussianPDFReal 0 1

theorem standardNormal_symm (x : ℝ) :
    standardNormal.cdf (-x) = 1 - standardNormal.cdf x := by
  have hatoms : NullSingletonClass (gaussianReal 0 1) :=
    nullSingletonClass_gaussianReal one_ne_zero
  have hreflect : (gaussianReal 0 1).real (Set.Iic (-x)) =
      (gaussianReal 0 1).real (Set.Ici x) := by
    have hmap := gaussianReal_map_neg (μ := 0) (v := 1)
    rw [neg_zero] at hmap
    conv_lhs => rw [← hmap]
    rw [map_measureReal_apply measurable_neg measurableSet_Iic]
    congr 1
    ext y
    simp
  show cdf (gaussianReal 0 1) (-x) = 1 - cdf (gaussianReal 0 1) x
  rw [cdf_eq_real, cdf_eq_real, hreflect, ← Set.compl_Iio,
    probReal_compl_eq_one_sub measurableSet_Iio]
  congr 1
  exact measureReal_congr Iio_ae_eq_Iic

theorem standardNormal_cdf_lt_one (x : ℝ) : standardNormal.cdf x < 1 := by
  have habove : gaussianReal 0 1 (Set.Ioi x) ≠ 0 := by
    intro hzero
    have hvolume := gaussianReal_absolutelyContinuous' 0 one_ne_zero hzero
    rw [Real.volume_Ioi] at hvolume
    exact ENNReal.top_ne_zero hvolume
  have hpos : 0 < (gaussianReal 0 1).real (Set.Ioi x) :=
    ENNReal.toReal_pos habove (measure_ne_top _ _)
  rw [← Set.compl_Iic, probReal_compl_eq_one_sub measurableSet_Iic] at hpos
  show cdf (gaussianReal 0 1) x < 1
  rw [cdf_eq_real]
  linarith

/-- With the distribution the code imports, no option respects parity. -/
theorem standardNormal_not_respectsParity
    (S : ℝ) {K T : ℝ} (hK : 0 < K) (hT : 0 < T) (r sigma : ℝ) {put : String} (hput : put ≠ "call") :
    ¬ RespectsParity standardNormal S K T r sigma put := by
  intro hparity
  have hone := hparity.cdf_d2 standardNormal_symm hput hK hT
  exact (standardNormal_cdf_lt_one (d2 S K T r sigma)).ne hone

theorem blackScholesGreeks_parity_at_the_money :
    RespectsParity standardNormal 100 100 1 0.05 0.2 "put" ↔
      standardNormal.cdf
        ((Real.log (100 / 100) + (0.05 - 0.2 ^ 2 / 2) * 1) /
          (0.2 * Real.sqrt 1)) = 1 :=
  blackScholesGreeks_parity_iff standardNormal standardNormal_symm 100 100 1
    0.05 0.2 (by norm_num) (by norm_num) (by norm_num) "put" (by decide)

/-- An option at the money over one year. -/
theorem blackScholesGreeks_breaks_parity :
    (∀ x, standardNormal.cdf (-x) = 1 - standardNormal.cdf x) ∧
      ¬ RespectsParity standardNormal 100 100 1 0.05 0.2 "put" :=
  ⟨standardNormal_symm,
    standardNormal_not_respectsParity 100 (by norm_num) (by norm_num) 0.05 0.2
      (by decide)⟩

end

end OptionPricer
end TradingStudies
