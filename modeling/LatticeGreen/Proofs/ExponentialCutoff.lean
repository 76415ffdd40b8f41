import LatticeGreen.Proofs.ComplementaryError
import LatticeGreen.Proofs.SplittingBounds

/-!
# What the cut of the exponential integral leaves out

Beyond the radius 100 the exponential integral is taken to be zero, because its leading weight
`exp (-z) / z` is thought to have underflown. The cut looks at the radius, the weight follows the
real part: it is negligible exactly where the real part exceeds a bound, of less than 84, that falls
with the logarithm of the radius. The orders of a line that decay lie above the bound. Those that
propagate lie below it, and are dropped with all their weight.
-/
namespace LatticeGreen

namespace ExponentialIntegral

/-- The size of the leading term of the asymptotic series. -/
noncomputable def leadingWeight (z : ℂ) : ℝ := ‖Complex.exp (-z) / z‖

/-- The real part above which the leading weight is negligible. -/
noncomputable def leastRealPart (z : ℂ) : ℝ := 30 * Real.log 10 - Real.log ‖z‖

theorem leadingWeight_eq (z : ℂ) : leadingWeight z = Real.exp (-z.re) / ‖z‖ := by
  unfold leadingWeight
  rw [norm_div, Complex.norm_exp, Complex.neg_re]

/-- The weight falls with the real part, and slowly with the radius. -/
theorem leadingWeight_lt_iff {z : ℂ} (nonzero : z ≠ 0) :
    leadingWeight z < 1e-30 ↔ leastRealPart z < z.re := by
  have size : 0 < ‖z‖ := norm_pos_iff.mpr nonzero
  have threshold : Real.log (1e-30 : ℝ) = -(30 * Real.log 10) := by
    have power : (1e-30 : ℝ) = ((10 : ℝ) ^ 30)⁻¹ := by norm_num
    rw [power, Real.log_inv, Real.log_pow]
    norm_num
  rw [leadingWeight_eq, div_lt_iff₀ size, ← Real.lt_log_iff_exp_lt (by positivity),
    Real.log_mul (by norm_num) size.ne', threshold]
  unfold leastRealPart
  constructor
  · intro below
    linarith
  · intro above
    linarith

theorem log_ten_lt_three : Real.log 10 < 3 := by
  rw [Real.log_lt_iff_lt_exp (by norm_num)]
  have base : (2.7 : ℝ) < Real.exp 1 := by linarith [Real.exp_one_gt_d9]
  calc (10 : ℝ) < 2.7 ^ 3 := by norm_num
    _ < Real.exp 1 ^ 3 := by gcongr
    _ = Real.exp 3 := by rw [← Real.exp_nat_mul]; norm_num

/-- Beyond the radius 100 a real part of 84 is enough. -/
theorem leastRealPart_lt {z : ℂ} (beyond : 100 < ‖z‖) : leastRealPart z < 84 := by
  have hundred : Real.log 100 = 2 * Real.log 10 := by
    rw [← Real.log_rpow (by norm_num)]
    norm_num
  have far : Real.log 100 < Real.log ‖z‖ := Real.log_lt_log (by norm_num) beyond
  have := log_ten_lt_three
  unfold leastRealPart
  linarith

/-- On the negative real axis no weight is negligible, whatever the radius. -/
theorem neg_norm_lt_leastRealPart {z : ℂ} (nonzero : z ≠ 0) : -‖z‖ < leastRealPart z := by
  have slow := Real.log_le_sub_one_of_pos (norm_pos_iff.mpr nonzero)
  have := Real.log_pos (show (1 : ℝ) < 10 by norm_num)
  unfold leastRealPart
  linarith

/-- On the real axis the leading weight is negligible beyond the radius 100 exactly to the right. -/
theorem leadingWeight_lt_iff_of_real {z : ℂ} (real : z.im = 0) (beyond : 100 < ‖z‖) :
    leadingWeight z < 1e-30 ↔ 0 < z.re := by
  have nonzero : z ≠ 0 := norm_pos_iff.mp (by linarith)
  have size : ‖z‖ = |z.re| := (Complex.abs_re_eq_norm.mpr real).symm
  rw [leadingWeight_lt_iff nonzero]
  constructor
  · intro above
    by_contra left
    have outside := neg_norm_lt_leastRealPart nonzero
    rw [size, abs_of_nonpos (not_lt.mp left)] at outside
    linarith
  · intro right
    have := leastRealPart_lt beyond
    rw [size, abs_of_pos right] at beyond
    linarith

end ExponentialIntegral

namespace LineTransform
open ExponentialIntegral

/-- The argument keeps the sign of the squared transverse wavenumber. -/
theorem re_scaledArgument (p2 eta : ℝ) (k : ℂ) :
    (scaledArgument (transverseSquare p2 k) eta).re = (p2 - (k ^ 2).re) / (4 * eta ^ 2) := by
  have quarter : (0.25 : ℝ) = 1 / 4 := by norm_num
  simp only [scaledArgument, transverseSquare, ofParts_exact, re_exact, quarter, sq]
  ring

theorem im_scaledArgument (p2 eta : ℝ) (k : ℂ) :
    (scaledArgument (transverseSquare p2 k) eta).im = -(k ^ 2).im / (4 * eta ^ 2) := by
  have quarter : (0.25 : ℝ) = 1 / 4 := by norm_num
  simp only [scaledArgument, transverseSquare, ofParts_exact, im_exact, quarter, sq]
  ring

/-- Close to the line the series is what is answered. -/
theorem longRange_of_near [SpecialFunctions ℂ] (kt2 : ℂ) {rho eta : ℝ} (positive : 0 < eta)
    (near : rho * eta ≤ 4.5) :
    longRange kt2 rho eta = (series kt2 rho eta : Logged ℝ (Radial ℂ)) := by
  have within : ¬ crossover < rho * eta := not_lt.mpr near
  have divided : (eta * eta == (0.0 : ℝ)) = false := beq_zero_of_ne (by positivity)
  unfold longRange
  rw [if_neg within, divided]
  rfl

/-- An order whose argument lies beyond the radius 100 is dropped with its derivatives. -/
theorem longRange_of_beyond [SpecialFunctions ℂ] {kt2 : ℂ} {rho eta : ℝ} (positive : 0 < eta)
    (close : rho * eta ≤ 4.5) (beyond : 100 < ‖scaledArgument kt2 eta‖) :
    longRange kt2 rho eta = pure ⟨0, 0, 0⟩ := by
  have dropped : series kt2 rho eta = (pure ⟨0, 0, 0⟩ : Logged ℝ (Radial ℂ)) := by
    unfold series
    simp [expInt_of_beyond beyond]
  rw [longRange_of_near kt2 positive close, dropped]
  rfl

/-- What the cut leaves out. Beyond the radius 100 the asymptotic series, the exponential integral
and the transform of an order are zero. The leading weight of what they would have been is
negligible exactly where the real part of the argument exceeds its bound; for a real wavenumber
these are the orders that decay. -/
theorem cut_negligible_iff [SpecialFunctions ℂ] :
    (∀ (tolerance : ℝ) (z : ℂ), 100 < ‖z‖ →
      asymptotic tolerance z = pure ⟨0, 0⟩ ∧ expInt z = pure 0 ∧
      (leadingWeight z < 1e-30 ↔ leastRealPart z < z.re)) ∧
    ∀ (k : ℂ) (p2 rho eta : ℝ), 0 < eta → rho * eta ≤ 4.5 →
      let kt2 := transverseSquare p2 k
      let x := scaledArgument kt2 eta
      100 < ‖x‖ →
      longRange kt2 rho eta = pure ⟨0, 0, 0⟩ ∧
      (leadingWeight x < 1e-30 ↔ leastRealPart x < (p2 - (k ^ 2).re) / (4 * eta ^ 2)) ∧
      (k.im = 0 → (leadingWeight x < 1e-30 ↔ k.re ^ 2 < p2)) := by
  have nonzero : ∀ z : ℂ, 100 < ‖z‖ → z ≠ 0 := fun z beyond => norm_pos_iff.mp (by linarith)
  constructor
  · intro tolerance z beyond
    exact ⟨asymptotic_of_beyond tolerance beyond, expInt_of_beyond beyond,
      leadingWeight_lt_iff (nonzero z beyond)⟩
  · intro k p2 rho eta positive close kt2 x beyond
    refine ⟨longRange_of_beyond positive close beyond, ?_, fun lossless => ?_⟩
    · rw [leadingWeight_lt_iff (nonzero x beyond), re_scaledArgument]
    · have real : x.im = 0 := by
        rw [im_scaledArgument]
        simp [sq, lossless]
      rw [leadingWeight_lt_iff_of_real real beyond, re_scaledArgument,
        div_pos_iff_of_pos_right (by positivity), sub_pos]
      simp [sq, lossless]

/-- For the wavenumber one: an order that decays fast is dropped with a negligible weight. -/
theorem cut_decaying_order :
    longRange (transverseSquare 102 (1 : ℂ)) 1 (1 / 2 : ℝ) = pure ⟨0, 0, 0⟩ ∧
      leadingWeight (scaledArgument (transverseSquare 102 (1 : ℂ)) (1 / 2)) < 1e-30 ∧
      expInt (101 : ℂ) = pure 0 ∧ leadingWeight 101 < 1e-30 := by
  obtain ⟨integrals, orders⟩ := cut_negligible_iff
  have size : ‖scaledArgument (transverseSquare 102 (1 : ℂ)) (1 / 2 : ℝ)‖ = 101 := by
    have real : scaledArgument (transverseSquare 102 (1 : ℂ)) (1 / 2 : ℝ) = (101 : ℝ) := by
      apply Complex.ext
      · rw [re_scaledArgument, Complex.ofReal_re]
        norm_num
      · rw [im_scaledArgument, Complex.ofReal_im]
        norm_num
    rw [real, Complex.norm_real]
    norm_num
  obtain ⟨dropped, -, decays⟩ := orders 1 102 1 (1 / 2) (by norm_num) (by norm_num)
    (by rw [size]; norm_num)
  obtain ⟨-, zero, negligible⟩ := integrals 1e-8 101 (by norm_num)
  refine ⟨dropped, (decays rfl).mpr (by norm_num), zero, negligible.mpr ?_⟩
  have below := leastRealPart_lt (z := 101) (by norm_num)
  norm_num
  linarith

/-- The order along the normal of a line, at the wavenumber one and a splitting parameter of a
twenty-fifth, propagates; it is dropped though its weight is not negligible, like the exponential
integral at -101. -/
theorem cut_propagating_order :
    expInt (-101 : ℂ) = pure 0 ∧ ¬ leadingWeight (-101) < 1e-30 ∧
    longRange (transverseSquare 0 (1 : ℂ)) 1 (1 / 25 : ℝ) = pure ⟨0, 0, 0⟩ ∧
      ¬ leadingWeight (scaledArgument (transverseSquare 0 (1 : ℂ)) (1 / 25)) < 1e-30 := by
  have real : scaledArgument (transverseSquare 0 (1 : ℂ)) (1 / 25 : ℝ) = (-156.25 : ℝ) := by
    apply Complex.ext
    · rw [re_scaledArgument, Complex.ofReal_re]
      norm_num
    · rw [im_scaledArgument, Complex.ofReal_im]
      norm_num
  have beyond : 100 < ‖scaledArgument (transverseSquare 0 (1 : ℂ)) (1 / 25 : ℝ)‖ := by
    rw [real, Complex.norm_real]
    norm_num
  have outside : 100 < ‖(-101 : ℂ)‖ := by norm_num
  refine ⟨expInt_of_beyond outside, ?_, longRange_of_beyond (by norm_num) (by norm_num) beyond, ?_⟩
  · rw [leadingWeight_lt_iff_of_real (by norm_num) outside]
    norm_num
  · rw [leadingWeight_lt_iff_of_real (by rw [real, Complex.ofReal_im]) beyond, real,
      Complex.ofReal_re]
    norm_num

end LineTransform

end LatticeGreen
