import LatticeGreen.Proofs.ComplementaryError
import LatticeGreen.Proofs.LineTransformDerivatives

/-!
# The Bessel functions as integrals

Under the integral the Bessel functions can be differentiated in the right half plane: the integrand
and its derivative decay faster than an exponential there.
-/
namespace LatticeGreen
open Complex (exp)
open MeasureTheory Set Topology

/-- Of a decaying exponential of the hyperbolic cosine even the square of the cosine leaves an
exponential decay. -/
theorem sq_cosh_mul_exp_le {c : ℝ} (positive : 0 < c) (t : ℝ) :
    Real.cosh t ^ 2 * Real.exp (-c * Real.cosh t) ≤ 12 / c ^ 3 * Real.exp (-t) := by
  have large : 0 < Real.cosh t := Real.cosh_pos t
  have cubic : (c * Real.cosh t) ^ 3 / 6 ≤ Real.exp (c * Real.cosh t) :=
    Real.pow_div_factorial_le_exp _ (by positivity) 3
  have half : Real.exp t / 2 ≤ Real.cosh t := by
    rw [Real.cosh_eq]
    linarith [Real.exp_pos (-t)]
  have decay : Real.exp (-c * Real.cosh t) = (Real.exp (c * Real.cosh t))⁻¹ := by
    rw [neg_mul, Real.exp_neg]
  calc Real.cosh t ^ 2 * Real.exp (-c * Real.cosh t)
      ≤ Real.cosh t ^ 2 * ((c * Real.cosh t) ^ 3 / 6)⁻¹ := by
        rw [decay]
        gcongr
    _ = 6 / c ^ 3 * (Real.cosh t)⁻¹ := by
        field_simp
    _ ≤ 6 / c ^ 3 * (Real.exp t / 2)⁻¹ := by
        gcongr
    _ = 12 / c ^ 3 * Real.exp (-t) := by
        rw [Real.exp_neg]
        field_simp
        norm_num

/-- The integrands decay throughout a half plane. -/
theorem norm_exp_mul_le {c : ℝ} (positive : 0 < c) {z : ℂ} (right : c ≤ z.re) {h : ℝ → ℝ}
    {t : ℝ} (bounded : |h t| ≤ 2 * Real.cosh t ^ 2) :
    ‖exp (-z * Real.cosh t) * h t‖ ≤ 24 / c ^ 3 * Real.exp (-t) := by
  have size : ‖exp (-z * Real.cosh t)‖ ≤ Real.exp (-c * Real.cosh t) := by
    rw [Complex.norm_exp, Real.exp_le_exp, Complex.re_mul_ofReal, Complex.neg_re]
    exact mul_le_mul_of_nonneg_right (neg_le_neg right) (Real.cosh_pos t).le
  calc ‖exp (-z * Real.cosh t) * h t‖
      ≤ Real.exp (-c * Real.cosh t) * (2 * Real.cosh t ^ 2) := by
        rw [norm_mul, Complex.norm_real, Real.norm_eq_abs]
        gcongr
    _ = 2 * (Real.cosh t ^ 2 * Real.exp (-c * Real.cosh t)) := by ring
    _ ≤ 2 * (12 / c ^ 3 * Real.exp (-t)) :=
        mul_le_mul_of_nonneg_left (sq_cosh_mul_exp_le positive t) two_pos.le
    _ = 24 / c ^ 3 * Real.exp (-t) := by ring

section
variable {z : ℂ} (right : 0 < z.re) {h : ℝ → ℝ} (continuous : Continuous h)
include right continuous

theorem integrableOn_exp_mul (bounded : ∀ t, |h t| ≤ 2 * Real.cosh t ^ 2) :
    IntegrableOn (fun t => exp (-z * Real.cosh t) * h t) (Ioi 0) := by
  refine Integrable.mono' ((integrableOn_exp_neg_Ioi 0).const_mul (24 / z.re ^ 3)) ?_ ?_
  · exact (by fun_prop : Continuous _).aestronglyMeasurable
  · exact Filter.Eventually.of_forall fun t => norm_exp_mul_le right le_rfl (bounded t)

/-- Under the integral the derivative takes a hyperbolic cosine out of the exponential. -/
theorem hasDerivAt_integral_exp_mul (bounded : ∀ t, |h t| ≤ Real.cosh t) :
    HasDerivAt (fun z => ∫ t in Ioi (0 : ℝ), exp (-z * Real.cosh t) * h t)
      (∫ t in Ioi (0 : ℝ), exp (-z * Real.cosh t) * (-(Real.cosh t * h t) : ℝ)) z := by
  -- One bound has to serve all arguments near `z`, so they are kept half as far from the axis.
  have half : 0 < z.re / 2 := by linarith
  have halfPlane : {w : ℂ | z.re / 2 < w.re} ∈ 𝓝 z :=
    (isOpen_lt continuous_const Complex.continuous_re).mem_nhds (by
      change z.re / 2 < z.re
      linarith)
  have once : ∀ t, |h t| ≤ 2 * Real.cosh t ^ 2 := fun t => by
    nlinarith [bounded t, Real.one_le_cosh t]
  have twice : ∀ t, |-(Real.cosh t * h t)| ≤ 2 * Real.cosh t ^ 2 := fun t => by
    rw [abs_neg, abs_mul, abs_of_pos (Real.cosh_pos t)]
    nlinarith [bounded t, Real.cosh_pos t]
  let slope (w : ℂ) (t : ℝ) : ℂ := exp (-w * Real.cosh t) * (-(Real.cosh t * h t) : ℝ)
  have derivative : ∀ w t, HasDerivAt (fun w => exp (-w * Real.cosh t) * h t) (slope w t) w := by
    intro w t
    have exponent : HasDerivAt (fun w : ℂ => -w * Real.cosh t) (-1 * Real.cosh t) w :=
      (hasDerivAt_id w).neg.mul_const _
    refine (exponent.cexp.mul_const (h t : ℂ)).congr_deriv ?_
    simp only [slope]
    push_cast
    ring
  have dominated : ∀ w ∈ {w : ℂ | z.re / 2 < w.re}, ∀ t,
      ‖slope w t‖ ≤ 24 / (z.re / 2) ^ 3 * Real.exp (-t) := fun w inside t =>
    norm_exp_mul_le (h := fun t => -(Real.cosh t * h t)) half (le_of_lt inside) (twice t)
  have measurable : ∀ w, Continuous fun t => exp (-w * Real.cosh t) * h t := fun w => by fun_prop
  have measurable' : Continuous (slope z) := by fun_prop
  exact (hasDerivAt_integral_of_dominated_loc_of_deriv_le halfPlane
    (Filter.Eventually.of_forall fun w => (measurable w).aestronglyMeasurable)
    (integrableOn_exp_mul right continuous once) measurable'.aestronglyMeasurable
    (Filter.Eventually.of_forall fun t w inside => dominated w inside t)
    ((integrableOn_exp_neg_Ioi 0).const_mul _)
    (Filter.Eventually.of_forall fun t w _ => derivative w t)).2

end

/-- The relations hold along every ray in the right half plane. -/
theorem besselRelations {kt : ℂ} (right : 0 < kt.re) : LineTransform.BesselRelations kt := by
  intro r apart
  have inside : 0 < (kt * r).re := by
    rw [Complex.re_mul_ofReal]
    positivity
  generalize kt * r = w at inside
  have none : ∀ t : ℝ, |Real.cosh (0 * t)| ≤ Real.cosh t := fun t => by
    rw [zero_mul, Real.cosh_zero, abs_one]
    exact Real.one_le_cosh t
  have one : ∀ t : ℝ, |Real.cosh (1 * t)| ≤ Real.cosh t := fun t => by
    rw [one_mul, abs_of_pos (Real.cosh_pos t)]
  have two : ∀ t : ℝ, |Real.cosh (2 * t)| ≤ 2 * Real.cosh t ^ 2 := fun t => by
    rw [abs_of_pos (Real.cosh_pos _), Real.cosh_two_mul]
    linarith [Real.cosh_sq t]
  have small : ∀ t : ℝ, |Real.cosh (0 * t)| ≤ 2 * Real.cosh t ^ 2 := fun t => by
    nlinarith [none t, Real.one_le_cosh t]
  refine ⟨(hasDerivAt_integral_exp_mul inside (by fun_prop) none).congr_deriv ?_,
    (hasDerivAt_integral_exp_mul inside (by fun_prop) one).congr_deriv ?_⟩
  · change _ = -∫ t in Ioi (0 : ℝ), exp (-w * Real.cosh t) * Real.cosh (1 * t)
    rw [← integral_neg]
    simp
  · change _ = -((∫ t in Ioi (0 : ℝ), exp (-w * Real.cosh t) * Real.cosh (0 * t)) +
      ∫ t in Ioi (0 : ℝ), exp (-w * Real.cosh t) * Real.cosh (2 * t)) / 2
    rw [← integral_add (integrableOn_exp_mul inside (by fun_prop) small)
      (integrableOn_exp_mul inside (by fun_prop) two), ← integral_neg, ← integral_div]
    refine integral_congr_ae (Filter.Eventually.of_forall fun t => ?_)
    have double : Real.cosh (2 * t) = 2 * Real.cosh t ^ 2 - 1 := by
      rw [Real.cosh_two_mul, Real.sinh_sq]
      ring
    simp only [double, zero_mul, one_mul, Real.cosh_zero]
    push_cast
    ring

theorem abs_sinh_sq_le (t : ℝ) : |Real.sinh t ^ 2| ≤ 2 * Real.cosh t ^ 2 := by
  rw [abs_of_nonneg (sq_nonneg _), Real.cosh_sq]
  nlinarith [sq_nonneg (Real.sinh t)]

section
variable {w : ℂ} (right : 0 < w.re)
include right

/-- The integrand times a hyperbolic sine vanishes at both ends, and so does the integral of its
derivative. -/
theorem integral_cosh_eq : ∫ t in Ioi (0 : ℝ), exp (-w * Real.cosh t) * Real.cosh t =
    w * ∫ t in Ioi (0 : ℝ), exp (-w * Real.cosh t) * (Real.sinh t ^ 2 : ℝ) := by
  let f (t : ℝ) : ℂ := exp (-w * Real.cosh t) * Real.sinh t
  let slope (t : ℝ) : ℂ := exp (-w * Real.cosh t) * Real.cosh t -
    w * (exp (-w * Real.cosh t) * (Real.sinh t ^ 2 : ℝ))
  have derivative : ∀ t ∈ Ici (0 : ℝ), HasDerivAt f (slope t) t := by
    intro t _
    have exponent := (Real.hasDerivAt_cosh t).ofReal_comp.const_mul (-w)
    apply (exponent.cexp.mul (Real.hasDerivAt_sinh t).ofReal_comp).congr_deriv
    simp only [slope]
    push_cast
    ring
  have once : ∀ t : ℝ, |Real.cosh t| ≤ 2 * Real.cosh t ^ 2 := by
    intro t
    rw [abs_of_pos (Real.cosh_pos t)]
    nlinarith [Real.one_le_cosh t]
  have bounded : ∀ t : ℝ, |Real.sinh t| ≤ 2 * Real.cosh t ^ 2 := by
    intro t
    have below : |Real.sinh t| ≤ |Real.cosh t| := by
      rw [Real.abs_sinh, abs_of_pos (Real.cosh_pos t), ← Real.cosh_abs]
      exact (Real.sinh_lt_cosh _).le
    exact below.trans (once t)
  have vanishes : Filter.Tendsto f Filter.atTop (𝓝 0) := by
    apply squeeze_zero_norm fun t => norm_exp_mul_le right le_rfl (bounded t)
    have decay := Real.tendsto_exp_neg_atTop_nhds_zero.const_mul (24 / w.re ^ 3)
    rwa [mul_zero] at decay
  have first := integrableOn_exp_mul right Real.continuous_cosh once
  have second := (integrableOn_exp_mul right (by fun_prop) abs_sinh_sq_le).const_mul w
  have whole := integral_Ioi_of_hasDerivAt_of_tendsto' derivative (first.sub second) vanishes
  have begins : f 0 = 0 := by simp only [f, Real.sinh_zero, Complex.ofReal_zero, mul_zero]
  rw [begins, sub_zero] at whole
  rw [← sub_eq_zero, ← integral_const_mul, ← integral_sub first second]
  exact whole

/-- The recurrence from the orders zero and one to the order two. -/
theorem besselRecurrence : (besselK w).2.2 = (besselK w).1 + 2 * (besselK w).2.1 / w := by
  have nonzero : w ≠ 0 := by
    rintro rfl
    exact lt_irrefl _ right
  change ∫ t in Ioi (0 : ℝ), exp (-w * Real.cosh t) * Real.cosh (2 * t) =
    (∫ t in Ioi (0 : ℝ), exp (-w * Real.cosh t) * Real.cosh (0 * t)) +
      2 * (∫ t in Ioi (0 : ℝ), exp (-w * Real.cosh t) * Real.cosh (1 * t)) / w
  simp only [one_mul, zero_mul, Real.cosh_zero]
  have one : ∀ t : ℝ, |(1 : ℝ)| ≤ 2 * Real.cosh t ^ 2 := by
    intro t
    rw [abs_one]
    nlinarith [Real.one_le_cosh t]
  have zeroth := integrableOn_exp_mul right continuous_const one
  have square := (integrableOn_exp_mul right (by fun_prop) abs_sinh_sq_le).const_mul 2
  have cancels : ∀ s : ℂ, 2 * (w * s) / w = 2 * s := by
    intro s
    field_simp
  rw [integral_cosh_eq right, cancels, ← integral_const_mul, ← integral_add zeroth square]
  apply integral_congr_ae
  filter_upwards with t
  rw [Real.cosh_two_mul, Real.cosh_sq]
  push_cast
  ring

end

end LatticeGreen
