import LatticeGreen.ExponentialIntegral
import LatticeGreen.Proofs.ExactScalars
import Mathlib

/-!
# The exponential integral on the negative axis

The orders that propagate ask for the exponential integral at negative arguments. The power series
keeps the imaginary part of its logarithm there and the terms of the asymptotic series are all
positive, so that the integral is zero only where it is cut to zero, beyond the radius 100.
-/
namespace LatticeGreen.ExponentialIntegral

/-! ## Power series -/

/-- The running value of a power series on the negative axis: only the logarithm has an imaginary
part. -/
def PowerSeries.OnCut (s : PowerSeries ℝ ℂ) : Prop := s.power.im = 0 ∧ s.value.im = -Real.pi

theorem PowerSeries.onCut_initial {x : ℝ} (positive : 0 < x) :
    (PowerSeries.initial (R := ℝ) (-x : ℂ)).OnCut := by
  have angle : (Complex.log (-x : ℂ)).im = Real.pi := by
    rw [Complex.log_im, ← Complex.ofReal_neg, Complex.arg_ofReal_of_neg (neg_lt_zero.mpr positive)]
  refine ⟨Complex.ofReal_im _, ?_⟩
  simp only [initial, ofReal_exact, clog_exact, Complex.sub_im, Complex.ofReal_im, angle, zero_sub]

theorem PowerSeries.onCut_step {s : PowerSeries ℝ ℂ} (onCut : s.OnCut) (x : ℝ) (n : Nat) :
    (s.step (-x : ℂ) n).OnCut := by
  obtain ⟨power, value⟩ := onCut
  have real : (s.power * -(-x : ℂ)).im = 0 := by simp [power]
  refine ⟨real, ?_⟩
  simp only [step, ofReal_exact, Complex.sub_im, Complex.div_ofReal_im, real, zero_div, sub_zero,
    value]

theorem PowerSeries.im_run (tolerance x : ℝ) (budget : Nat) :
    ∀ (n : Nat) (s : PowerSeries ℝ ℂ), s.OnCut →
      (run tolerance (-x : ℂ) budget n s).1.value.im = -Real.pi := by
  induction budget with
  | zero => exact fun n s onCut => onCut.2
  | succ budget ih =>
    intro n s onCut
    have next := onCut_step onCut x (n + 1)
    unfold run
    dsimp only
    split
    · exact next.2
    · exact ih (n + 1) _ next

theorem im_series (tolerance : ℝ) {x : ℝ} (positive : 0 < x) :
    (series tolerance (-x : ℂ)).value.value.im = -Real.pi :=
  PowerSeries.im_run tolerance x 100 0 _ (PowerSeries.onCut_initial positive)

/-! ## Asymptotic series -/

/-- The running sum of an asymptotic series on the negative axis: a real that has grown from one by
positive terms. -/
def Asymptotic.Growing (s : Asymptotic ℂ) : Prop :=
  ∃ total term : ℝ, s = ⟨total, term⟩ ∧ 1 ≤ total ∧ 0 ≤ term

theorem Asymptotic.growing_initial : (Asymptotic.initial (R := ℝ) : Asymptotic ℂ).Growing :=
  ⟨1, 1, by norm_num [initial], le_refl 1, zero_le_one⟩

theorem Asymptotic.growing_step {s : Asymptotic ℂ} (growing : s.Growing) {x : ℝ}
    (positive : 0 < x) (n : Nat) : (s.step (R := ℝ) (-x : ℂ) n).Growing := by
  obtain ⟨total, term, rfl, large, nonnegative⟩ := growing
  have added : 0 ≤ term * (n / x) := mul_nonneg nonnegative (by positivity)
  refine ⟨total + term * (n / x), term * (n / x), ?_, by linarith, added⟩
  simp only [step, ofReal_exact]
  push_cast
  rw [neg_div_neg_eq]

theorem Asymptotic.one_le_run (tolerance : ℝ) {x : ℝ} (positive : 0 < x) (budget : Nat) :
    ∀ (n : Nat) (s : Asymptotic ℂ), s.Growing →
      ∃ total : ℝ, (run tolerance (-x : ℂ) budget n s).1.value = total ∧ 1 ≤ total := by
  induction budget with
  | zero =>
    rintro n s ⟨total, term, rfl, large, -⟩
    exact ⟨total, rfl, large⟩
  | succ budget ih =>
    intro n s growing
    have next := growing_step growing positive (n + 1)
    unfold run
    dsimp only
    split
    · obtain ⟨total, term, equal, large, -⟩ := next
      exact ⟨total, congrArg Asymptotic.total equal, large⟩
    · exact ih (n + 1) _ next

theorem asymptotic_neg_eq_zero_iff (tolerance : ℝ) {x : ℝ} (positive : 0 < x) :
    (asymptotic tolerance (-x : ℂ)).value.value = 0 ↔ 100 < x := by
  have size : ‖(-x : ℂ)‖ = x := by
    rw [norm_neg, Complex.norm_real, Real.norm_of_nonneg positive.le]
  have hundred : (100.0 : ℝ) = 100 := by norm_num
  unfold asymptotic
  simp only [modulus_exact, size, hundred]
  split
  · rename_i beyond
    simp [beyond]
  · rename_i within
    obtain ⟨total, sum, large⟩ :=
      Asymptotic.one_le_run tolerance positive 100 0 _ Asymptotic.growing_initial
    have nonzero : (total : ℂ) ≠ 0 := by
      rw [Complex.ofReal_ne_zero]
      linarith
    have divisor : (-x : ℂ) ≠ 0 := neg_ne_zero.mpr (Complex.ofReal_ne_zero.mpr positive.ne')
    simp only [Logged.value_bind, Logged.value_pure, cexp_exact, sum, within, iff_false]
    exact div_ne_zero (mul_ne_zero nonzero (Complex.exp_ne_zero _)) divisor

/-! ## Choice -/

theorem nearCut_neg {x : ℝ} (positive : 0 < x) : nearCut (-x : ℂ) = true := by
  have angle : (-x : ℂ).arg = Real.pi := by
    rw [← Complex.ofReal_neg, Complex.arg_ofReal_of_neg (neg_lt_zero.mpr positive)]
  have threshold : (0 : ℝ) < 0.2 := by norm_num
  simp [nearCut, angle, abs_of_pos Real.pi_pos, threshold]

/-- From the radius 30 on the integral is the asymptotic series. -/
theorem expInt_of_outer {z : ℂ} (outer : 30 ≤ ‖z‖) :
    expInt z = Estimate.value <$> asymptotic defaultTolerance z := by
  have five : ¬ ‖z‖ < 5.0 := by
    norm_num
    linarith
  have thirty : ¬ ‖z‖ < 30.0 := by
    norm_num
    exact outer
  simp only [expInt, modulus_exact, five, thirty, if_false]
  rfl

theorem asymptotic_of_beyond (tolerance : ℝ) {z : ℂ} (beyond : 100 < ‖z‖) :
    asymptotic tolerance z = pure ⟨0, 0⟩ := by
  have hundred : (100.0 : ℝ) < ‖z‖ := by
    norm_num
    exact beyond
  unfold asymptotic
  simp only [modulus_exact, hundred, if_true, zeroC_exact]

/-- Beyond the radius 100 the integral is cut to zero, in every direction. -/
theorem expInt_of_beyond {z : ℂ} (beyond : 100 < ‖z‖) : expInt z = pure 0 := by
  rw [expInt_of_outer (by linarith), asymptotic_of_beyond defaultTolerance beyond]
  rfl

/-- On the negative axis the exponential integral is zero only where it is cut to zero. -/
theorem expInt_neg_eq_zero_iff {x : ℝ} (positive : 0 < x) :
    (expInt (-x : ℂ)).value = 0 ↔ 100 < x := by
  have size : ‖(-x : ℂ)‖ = x := by
    rw [norm_neg, Complex.norm_real, Real.norm_of_nonneg positive.le]
  have five : (5.0 : ℝ) = 5 := by norm_num
  have thirty : (30.0 : ℝ) = 30 := by norm_num
  have by_series : (series defaultTolerance (-x : ℂ)).value.value ≠ 0 := by
    intro zero
    have imaginary := im_series defaultTolerance positive
    rw [zero, Complex.zero_im] at imaginary
    exact Real.pi_ne_zero (neg_eq_zero.mp imaginary.symm)
  unfold expInt
  simp only [modulus_exact, size, five, thirty, nearCut_neg positive, if_true]
  split
  · rename_i small
    simp only [Logged.value_bind, Logged.value_pure, by_series, false_iff]
    linarith
  · split
    · rename_i moderate
      simp only [Logged.value_bind, Logged.value_pure, by_series, false_iff]
      linarith
    · simp only [Logged.value_bind, Logged.value_pure]
      exact asymptotic_neg_eq_zero_iff defaultTolerance positive

end LatticeGreen.ExponentialIntegral
