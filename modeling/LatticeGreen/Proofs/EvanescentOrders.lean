import LatticeGreen.Proofs.GaussianSources
import LatticeGreen.Proofs.RenamedSums
import LatticeGreen.Proofs.SingularSums

/-!
# Orders of evanescent waves

A wave is damped if the imaginary part of its wavenumber is as large as the real part, or larger.
None of its orders grazes the lattice: each has a propagation constant at least as large as the
wavenumber. A distant sum without a grazing order is regular, and its evaluation is not retried.
-/
namespace LatticeGreen

section
variable [SpecialFunctions ℂ]
open Attempt

/-- A distant sum without a singular order is regular. -/
theorem Distant.regular_construct (far : Distant ℝ ℂ) (periodic : far.periodicity ≠ .unspecified)
    (decays : ∀ cell, (far.order cell).1 = false) (c : Convergence ℝ) (obstacles : Obstacles ℝ) :
    Ensures (·.singular = false) (far.construct c obstacles) := by
  have none : (0.0 : ℝ) = 0 := by norm_num
  unfold construct
  split
  · exact ensures_pure rfl
  · rename_i divided
    have split : far.splitting ≠ 0 := by simpa [none] using divided
    choose term answers using far.exists_order periodic split
    have asked : ∀ cells, Ensures (·.singular = false) (far.shell cells) := by
      intro cells contribution events ran
      have regular : (cells.any fun cell => (far.order cell).1) = false := by
        rw [List.any_eq_false]
        exact fun cell _ => Bool.eq_false_iff.mp (decays cell)
      have answered := answer_eq_ok_iff.mpr ⟨events, ran⟩
      rw [(far.cellwise periodic answers).complete cells regular] at answered
      rw [← Except.ok.inj answered]
    refine (ensures_accumulate (regular_sumLattice asked _ c false) description obstacles).bind
      fun sum regular => ?_
    exact ensures_bind fun factor => ensures_pure regular

/-! ## Damped waves -/

omit [SpecialFunctions ℂ] in
theorem grazes_eq_false {k : ℂ} {size : ℝ} (above : ‖k‖ ≤ size) : grazes k size = false := by
  have small : (1.0e-4 : ℝ) * ‖k‖ ≤ ‖k‖ := by
    have := norm_nonneg k
    norm_num
    linarith
  unfold grazes singularThreshold
  rw [decide_eq_false_iff_not, not_lt, modulus_exact]
  exact small.trans above

omit [SpecialFunctions ℂ] in
/-- The square of a damped wavenumber lies in the left half plane, away from that of an order. -/
theorem sq_norm_le_transverseSquare {k : ℂ} (damped : |k.re| ≤ |k.im|) {p2 : ℝ}
    (nonnegative : 0 ≤ p2) : ‖k‖ ^ 2 ≤ ‖(transverseSquare p2 k : ℂ)‖ := by
  have left : (k * k).re ≤ 0 := by
    rw [Complex.mul_re, sub_nonpos, ← sq, ← sq]
    exact sq_le_sq.mpr damped
  have apart : 0 ≤ p2 * -(k * k).re := mul_nonneg nonnegative (neg_nonneg.mpr left)
  rw [← norm_pow, sq k, Complex.norm_def, Complex.norm_def]
  refine Real.sqrt_le_sqrt ?_
  rw [Complex.normSq_apply, Complex.normSq_apply]
  change _ ≤ (p2 - (k * k).re) * (p2 - (k * k).re) + -(k * k).im * -(k * k).im
  linarith [mul_self_nonneg p2]

omit [SpecialFunctions ℂ] in
theorem PlaneOrder.norm_le_propagation {k : ℂ} (damped : |k.re| ≤ |k.im|) (p : Vec2 ℝ) :
    ‖k‖ ≤ ‖propagation k p‖ := by
  have square : ‖propagation k p‖ ^ 2 = ‖(transverseSquare (p.x * p.x + p.y * p.y) k : ℂ)‖ := by
    unfold propagation
    rw [← norm_pow, sq_csqrt]
  refine le_of_sq_le_sq ?_ (norm_nonneg _)
  rw [square]
  exact sq_norm_le_transverseSquare damped (Reciprocal.dot_self_nonneg p)

omit [SpecialFunctions ℂ] in
theorem LineOrder.norm_le_transverse {k : ℂ} (damped : |k.re| ≤ |k.im|) (kx : ℝ) :
    ‖k‖ ≤ √‖transverse k kx‖ :=
  Real.le_sqrt_of_sq_le (sq_norm_le_transverseSquare damped (mul_self_nonneg kx))

/-- No order of a damped wave grazes the lattice. -/
theorem Distant.decays_of_damped {far : Distant ℝ ℂ}
    (damped : |far.wavenumber.re| ≤ |far.wavenumber.im|) (cell : Cell) :
    (far.order cell).1 = false := by
  unfold order
  cases far.periodicity with
  | unspecified => rfl
  | line => exact grazes_eq_false (LineOrder.norm_le_transverse damped _)
  | plane => exact grazes_eq_false (PlaneOrder.norm_le_propagation damped _)

/-- The evaluation of a damped wave is not retried. -/
theorem PeriodicGreen.once_of_damped {green : PeriodicGreen ℝ} {point bloch : RealArray ℝ}
    {k : ℂ} (damped : |k.re| ≤ |k.im|) {result : Evaluation ℝ ℂ}
    (answered : (green.evaluate point k bloch).answer = .ok result) : result.retried = false := by
  rw [answer_evaluate] at answered
  obtain ⟨p, -, answered⟩ := exists_of_bind_eq_ok answered
  obtain ⟨b, -, answered⟩ := exists_of_bind_eq_ok answered
  split at answered
  · rw [← Except.ok.inj answered]
    rfl
  · obtain ⟨basis, -, answered⟩ := exists_of_bind_eq_ok answered
    obtain ⟨r, -, answered⟩ := exists_of_bind_eq_ok answered
    obtain ⟨first, tried, answered⟩ := exists_of_bind_eq_ok answered
    have regular : first.distant.singular = false := by
      have once := tried
      rw [trial_eq] at once
      obtain ⟨nearby, -, once⟩ := exists_of_bind_eq_ok once
      obtain ⟨distant, summed, once⟩ := exists_of_bind_eq_ok once
      obtain ⟨events, summed⟩ := answer_eq_ok_iff.mp summed
      rw [← Except.ok.inj once]
      exact Distant.regular_construct _ basis.periodicity_ne_unspecified
        (Distant.decays_of_damped damped) _ _ distant events summed
    rw [if_neg (Bool.eq_false_iff.mp regular)] at answered
    rw [← Except.ok.inj answered]
    exact retried_trial tried

end

end LatticeGreen
