import TradingStudies.BlackScholes

/-!
# The greeks as derivatives

With the standard normal distribution the greeks of a call are the partial
derivatives of its price, theta per day and rho per percent.  The greeks of a
put share the last two terms with the call, which is not what their derivatives
are.

The density of `d2` discounted by the strike is the density of `d1` times the
spot price, so that of all the ways in which `d1` and `d2` depend on a term only
their difference `sigma * sqrt T` matters.
-/

namespace TradingStudies
namespace OptionPricer

noncomputable section

open MeasureTheory ProbabilityTheory

/-! ## The distribution -/

theorem standardNormal_pdf_continuous : Continuous standardNormal.pdf := by
  show Continuous (gaussianPDFReal 0 1)
  rw [gaussianPDFReal_def]
  fun_prop

theorem standardNormal_cdf_eq (x : ℝ) :
    standardNormal.cdf x = ∫ y in Set.Iic x, standardNormal.pdf y := by
  show cdf (gaussianReal 0 1) x = ∫ y in Set.Iic x, gaussianPDFReal 0 1 y
  rw [cdf_eq_real, measureReal_def,
    gaussianReal_apply_eq_integral 0 one_ne_zero, ENNReal.toReal_ofReal]
  exact setIntegral_nonneg measurableSet_Iic fun y _ =>
    gaussianPDFReal_nonneg 0 1 y

theorem hasDerivAt_cdf (x : ℝ) :
    HasDerivAt standardNormal.cdf (standardNormal.pdf x) x := by
  have hintegrable : Integrable standardNormal.pdf :=
    integrable_gaussianPDFReal 0 1
  have hsplit : standardNormal.cdf = fun y =>
      standardNormal.cdf x + ∫ z in x..y, standardNormal.pdf z := by
    funext y
    have hdifference := intervalIntegral.integral_Iic_sub_Iic
      (hintegrable.integrableOn (s := Set.Iic x))
      (hintegrable.integrableOn (s := Set.Iic y))
    rw [standardNormal_cdf_eq, standardNormal_cdf_eq, ← hdifference]
    ring
  have hcontinuous := standardNormal_pdf_continuous
  have hderiv := intervalIntegral.integral_hasDerivAt_right
    (hintegrable.intervalIntegrable (a := x) (b := x))
    (hcontinuous.stronglyMeasurableAtFilter volume _)
    hcontinuous.continuousAt
  rw [hsplit]
  exact hderiv.const_add _

theorem standardNormal_pdf_eq (x : ℝ) :
    standardNormal.pdf x =
      (Real.sqrt (2 * Real.pi))⁻¹ * Real.exp (-x ^ 2 / 2) := by
  show gaussianPDFReal 0 1 x = _
  simp [gaussianPDFReal]

section Option

variable {S K T r sigma : ℝ}

theorem sq_d1_sub_sq_d2 (hT : 0 < T) (hsigma : 0 < sigma) :
    d1 S K T r sigma ^ 2 - d2 S K T r sigma ^ 2 =
      2 * (Real.log (S / K) + r * T) := by
  have hroot : 0 < Real.sqrt T := Real.sqrt_pos.mpr hT
  have hsquare : Real.sqrt T ^ 2 = T := Real.sq_sqrt hT.le
  have hd1 : d1 S K T r sigma * (sigma * Real.sqrt T) =
      Real.log (S / K) + (r + 0.5 * sigma ^ 2) * T := by
    unfold d1
    exact div_mul_cancel₀ _ (by positivity)
  unfold d2
  calc
    d1 S K T r sigma ^ 2 - (d1 S K T r sigma - sigma * Real.sqrt T) ^ 2 =
        2 * (d1 S K T r sigma * (sigma * Real.sqrt T)) -
          sigma ^ 2 * Real.sqrt T ^ 2 := by ring
    _ = 2 * (Real.log (S / K) + r * T) := by
      rw [hd1, hsquare]
      ring

/-- The discounted densities agree. -/
theorem spot_pdf_d1 (hS : 0 < S) (hK : 0 < K) (hT : 0 < T)
    (hsigma : 0 < sigma) :
    S * standardNormal.pdf (d1 S K T r sigma) =
      K * Real.exp (-r * T) * standardNormal.pdf (d2 S K T r sigma) := by
  have hexponent : -d2 S K T r sigma ^ 2 / 2 =
      -d1 S K T r sigma ^ 2 / 2 + Real.log (S / K) + r * T := by
    have hsquares := sq_d1_sub_sq_d2 (S := S) (K := K) (r := r) hT hsigma
    linarith
  have hrate : Real.exp (-r * T) * Real.exp (r * T) = 1 := by
    rw [← Real.exp_add, neg_mul, neg_add_cancel, Real.exp_zero]
  rw [standardNormal_pdf_eq, standardNormal_pdf_eq, hexponent, Real.exp_add,
    Real.exp_add, Real.exp_log (by positivity)]
  calc
    S * ((Real.sqrt (2 * Real.pi))⁻¹ *
          Real.exp (-d1 S K T r sigma ^ 2 / 2)) =
        K * ((Real.sqrt (2 * Real.pi))⁻¹ *
          (Real.exp (-d1 S K T r sigma ^ 2 / 2) * (S / K))) *
            (Real.exp (-r * T) * Real.exp (r * T)) := by
      rw [hrate]
      field_simp
    _ = _ := by ring

end Option

/-- However `d1` depends on a term, only the terms outside of the distribution
and the difference `width` of `d1` and `d2` change the price. -/
theorem hasDerivAt_call {spot strike upper width : ℝ → ℝ}
    {spot' strike' upper' width' x : ℝ} (hspot : HasDerivAt spot spot' x)
    (hstrike : HasDerivAt strike strike' x)
    (hupper : HasDerivAt upper upper' x) (hwidth : HasDerivAt width width' x)
    (hagree : spot x * standardNormal.pdf (upper x) =
      strike x * standardNormal.pdf (upper x - width x)) :
    HasDerivAt
      (fun y => spot y * standardNormal.cdf (upper y) -
        strike y * standardNormal.cdf (upper y - width y))
      (spot' * standardNormal.cdf (upper x) -
        strike' * standardNormal.cdf (upper x - width x) +
          spot x * standardNormal.pdf (upper x) * width') x := by
  have hfirst := (hasDerivAt_cdf (upper x)).comp x hupper
  have hsecond := (hasDerivAt_cdf (upper x - width x)).comp x
    (hupper.sub hwidth)
  apply ((hspot.mul hfirst).sub (hstrike.mul hsecond)).congr_deriv
  simp only [Function.comp_apply]
  linear_combination (upper' - width') * hagree

/-! ## The greeks -/

section Greeks

variable {S K T r sigma : ℝ}

theorem hasDerivAt_d1_spot (hS : 0 < S) (hK : 0 < K) (hT : 0 < T)
    (hsigma : 0 < sigma) :
    HasDerivAt (fun spot => d1 spot K T r sigma)
      (1 / (S * sigma * Real.sqrt T)) S := by
  have hroot : 0 < Real.sqrt T := Real.sqrt_pos.mpr hT
  have hlog := ((hasDerivAt_id S).div_const K).log
    (div_ne_zero hS.ne' hK.ne')
  have hd1 := (hlog.add_const ((r + 0.5 * sigma ^ 2) * T)).div_const
    (sigma * Real.sqrt T)
  apply hd1.congr_deriv
  simp only [id]
  field_simp

theorem hasDerivAt_discounted_time (r K T : ℝ) :
    HasDerivAt (fun time => K * Real.exp (-r * time))
      (-(r * K * Real.exp (-r * T))) T := by
  have hforward := (hasDerivAt_forwardValue_time 0 K T r).neg
  apply (hforward.congr_of_eventuallyEq ?_)
  filter_upwards with time
  unfold forwardValue
  simp

theorem hasDerivAt_discounted_rate (r K T : ℝ) :
    HasDerivAt (fun rate => K * Real.exp (-rate * T))
      (-(K * T * Real.exp (-r * T))) r := by
  have hforward := (hasDerivAt_forwardValue_rate 0 K T r).neg
  apply (hforward.congr_of_eventuallyEq ?_)
  filter_upwards with rate
  unfold forwardValue
  simp

variable (r) in
theorem hasDerivAt_call_spot (hS : 0 < S) (hK : 0 < K) (hT : 0 < T)
    (hsigma : 0 < sigma) :
    HasDerivAt
      (fun spot => blackScholesPrice standardNormal spot K T r sigma "call")
      (blackScholesGreeks standardNormal S K T r sigma "call").delta S := by
  have hprice := hasDerivAt_call (hasDerivAt_id S)
    (hasDerivAt_const S (K * Real.exp (-r * T)))
    (hasDerivAt_d1_spot (r := r) hS hK hT hsigma)
    (hasDerivAt_const S (sigma * Real.sqrt T))
    (spot_pdf_d1 hS hK hT hsigma)
  apply hprice.congr_deriv
  simp [blackScholesGreeks]

variable (r) in
theorem hasDerivAt_delta_spot (hS : 0 < S) (hK : 0 < K) (hT : 0 < T)
    (hsigma : 0 < sigma) :
    HasDerivAt
      (fun spot =>
        (blackScholesGreeks standardNormal spot K T r sigma "call").delta)
      (blackScholesGreeks standardNormal S K T r sigma "call").gamma S := by
  have hdelta := (hasDerivAt_cdf (d1 S K T r sigma)).comp S
    (hasDerivAt_d1_spot hS hK hT hsigma)
  apply hdelta.congr_deriv
  simp [blackScholesGreeks, div_eq_mul_inv]

variable (r) in
theorem hasDerivAt_call_volatility (hS : 0 < S) (hK : 0 < K) (hT : 0 < T)
    (hsigma : 0 < sigma) :
    HasDerivAt
      (fun volatility =>
        blackScholesPrice standardNormal S K T r volatility "call")
      (blackScholesGreeks standardNormal S K T r sigma "call").vega sigma := by
  have hroot : 0 < Real.sqrt T := Real.sqrt_pos.mpr hT
  have hupper : DifferentiableAt ℝ (fun volatility => d1 S K T r volatility)
      sigma := by
    unfold d1
    fun_prop (disch := positivity)
  have hprice := hasDerivAt_call (hasDerivAt_const sigma S)
    (hasDerivAt_const sigma (K * Real.exp (-r * T))) hupper.hasDerivAt
    ((hasDerivAt_id sigma).mul_const (Real.sqrt T))
    (spot_pdf_d1 hS hK hT hsigma)
  apply hprice.congr_deriv
  simp [blackScholesGreeks]

variable (r) in
theorem hasDerivAt_call_time (hS : 0 < S) (hK : 0 < K) (hT : 0 < T)
    (hsigma : 0 < sigma) :
    HasDerivAt
      (fun time => blackScholesPrice standardNormal S K time r sigma "call")
      (-(365 *
        (blackScholesGreeks standardNormal S K T r sigma "call").theta))
      T := by
  have hroot : 0 < Real.sqrt T := Real.sqrt_pos.mpr hT
  have hupper : DifferentiableAt ℝ (fun time => d1 S K time r sigma) T := by
    unfold d1
    fun_prop (disch := positivity)
  have hprice := hasDerivAt_call (hasDerivAt_const T S)
    (hasDerivAt_discounted_time r K T) hupper.hasDerivAt
    ((Real.hasDerivAt_sqrt hT.ne').const_mul sigma)
    (spot_pdf_d1 hS hK hT hsigma)
  apply hprice.congr_deriv
  simp only [blackScholesGreeks, if_true]
  unfold d2
  ring

variable (r) in
theorem hasDerivAt_call_rate (hS : 0 < S) (hK : 0 < K) (hT : 0 < T)
    (hsigma : 0 < sigma) :
    HasDerivAt
      (fun rate => blackScholesPrice standardNormal S K T rate sigma "call")
      (100 * (blackScholesGreeks standardNormal S K T r sigma "call").rho)
      r := by
  have hupper : DifferentiableAt ℝ (fun rate => d1 S K T rate sigma) r := by
    unfold d1
    fun_prop
  have hprice := hasDerivAt_call (hasDerivAt_const r S)
    (hasDerivAt_discounted_rate r K T) hupper.hasDerivAt
    (hasDerivAt_const r (sigma * Real.sqrt T))
    (spot_pdf_d1 hS hK hT hsigma)
  apply hprice.congr_deriv
  simp only [blackScholesGreeks, if_true]
  unfold d2
  ring

/-- The greeks of an option are the derivatives of its price, with these
values of theta, per day as time runs out, and of rho, per percent. -/
structure AreDerivatives (S K T r sigma : ℝ) (option_type : String)
    (theta rho : ℝ) : Prop where
  delta : HasDerivAt
    (fun spot =>
      blackScholesPrice standardNormal spot K T r sigma option_type)
    (blackScholesGreeks standardNormal S K T r sigma option_type).delta S
  gamma : HasDerivAt
    (fun spot =>
      (blackScholesGreeks standardNormal spot K T r sigma option_type).delta)
    (blackScholesGreeks standardNormal S K T r sigma option_type).gamma S
  vega : HasDerivAt
    (fun volatility =>
      blackScholesPrice standardNormal S K T r volatility option_type)
    (blackScholesGreeks standardNormal S K T r sigma option_type).vega sigma
  theta : HasDerivAt
    (fun time =>
      blackScholesPrice standardNormal S K time r sigma option_type)
    (-(365 * theta)) T
  rho : HasDerivAt
    (fun rate =>
      blackScholesPrice standardNormal S K T rate sigma option_type)
    (100 * rho) r

theorem call_areDerivatives (r : ℝ) (hS : 0 < S) (hK : 0 < K) (hT : 0 < T)
    (hsigma : 0 < sigma) :
    AreDerivatives S K T r sigma "call"
      (blackScholesGreeks standardNormal S K T r sigma "call").theta
      (blackScholesGreeks standardNormal S K T r sigma "call").rho where
  delta := hasDerivAt_call_spot r hS hK hT hsigma
  gamma := hasDerivAt_delta_spot r hS hK hT hsigma
  vega := hasDerivAt_call_volatility r hS hK hT hsigma
  theta := hasDerivAt_call_time r hS hK hT hsigma
  rho := hasDerivAt_call_rate r hS hK hT hsigma

variable {put : String}

theorem put_price (hput : put ≠ "call") (S K T r sigma : ℝ) :
    blackScholesPrice standardNormal S K T r sigma put =
      blackScholesPrice standardNormal S K T r sigma "call" -
        forwardValue S K T r := by
  rw [← price_parity standardNormal_symm hput S K T r sigma]
  ring

theorem put_delta (hput : put ≠ "call") (S K T r sigma : ℝ) :
    (blackScholesGreeks standardNormal S K T r sigma put).delta =
      (blackScholesGreeks standardNormal S K T r sigma "call").delta - 1 := by
  rw [← delta_parity standardNormal_symm hput S K T r sigma]
  ring

/-- The missing sign of the last term of theta and rho. -/
theorem put_areDerivatives (hput : put ≠ "call") (r : ℝ) (hS : 0 < S)
    (hK : 0 < K) (hT : 0 < T) (hsigma : 0 < sigma) :
    AreDerivatives S K T r sigma put
      ((blackScholesGreeks standardNormal S K T r sigma put).theta +
        2 * r * K * Real.exp (-r * T) *
          standardNormal.cdf (-d2 S K T r sigma) / 365)
      (-(blackScholesGreeks standardNormal S K T r sigma put).rho) := by
  have hcall := call_areDerivatives r hS hK hT hsigma
  have hsymm := standardNormal_symm (d2 S K T r sigma)
  constructor
  · simp only [put_price hput]
    rw [put_delta hput]
    exact hcall.delta.sub (hasDerivAt_forwardValue_spot S K T r)
  · simp only [put_delta hput]
    exact hcall.gamma.sub_const 1
  · simp only [put_price hput]
    exact hcall.vega.sub_const _
  · simp only [put_price hput]
    apply (hcall.theta.sub (hasDerivAt_forwardValue_time S K T r)).congr_deriv
    simp only [blackScholesGreeks, if_true, if_neg hput]
    rw [hsymm]
    ring
  · simp only [put_price hput]
    apply (hcall.rho.sub (hasDerivAt_forwardValue_rate S K T r)).congr_deriv
    simp only [blackScholesGreeks, if_true, if_neg hput]
    rw [hsymm]
    ring

end Greeks

/-- All greeks of a call are the derivatives of its price.  So are delta, gamma
and vega of a put; its theta lacks twice the interest on the strike, and its rho
has the wrong sign. -/
theorem blackScholesGreeks_areDerivatives (S K T r sigma : ℝ) (hS : 0 < S)
    (hK : 0 < K) (hT : 0 < T) (hsigma : 0 < sigma) :
    AreDerivatives S K T r sigma "call"
        (blackScholesGreeks standardNormal S K T r sigma "call").theta
        (blackScholesGreeks standardNormal S K T r sigma "call").rho ∧
      ∀ put, put ≠ "call" → AreDerivatives S K T r sigma put
        ((blackScholesGreeks standardNormal S K T r sigma put).theta +
          2 * r * K * Real.exp (-r * T) *
            standardNormal.cdf (-d2 S K T r sigma) / 365)
        (-(blackScholesGreeks standardNormal S K T r sigma put).rho) :=
  ⟨call_areDerivatives r hS hK hT hsigma,
    fun _ hput => put_areDerivatives hput r hS hK hT hsigma⟩

/-- The option at the money over one year. -/
theorem blackScholesGreeks_areDerivatives_at_the_money :
    HasDerivAt
      (fun spot =>
        blackScholesPrice standardNormal spot 100 1 0.05 0.2 "call")
      (blackScholesGreeks standardNormal 100 100 1 0.05 0.2 "call").delta
      100 :=
  (blackScholesGreeks_areDerivatives 100 100 1 0.05 0.2 (by norm_num)
    (by norm_num) (by norm_num) (by norm_num)).1.delta

end

end OptionPricer
end TradingStudies
