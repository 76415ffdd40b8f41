import LatticeGreen.Distant
import LatticeGreen.Proofs.NegativeAxis
import Mathlib

/-!
# Bounds on the automatic splitting parameter

The parameter is meant to stay above a twentieth of the wavenumber: the exponential integrals of
the propagating orders are then asked for within the radius in which they are not cut to zero. In a
plane it does. Along a line a second bound shrinks with the distance of the point; where the two
have crossed, a parameter above both is lowered to the second, and the first is lost.
-/
namespace LatticeGreen

/-- The vectors span a cell: a line runs along x, a plane has an area. -/
def Basis.Spans : Basis ℝ → Prop
  | .line a => a.x ≠ 0 ∧ a.y = 0
  | .plane a1 a2 => a1.cross a2 ≠ 0

namespace Reciprocal

/-- The bound on the splitting parameter of a line that shrinks with the distance from it. -/
noncomputable def farBound (rho : ℝ) : ℝ := if rho = 0 then 1.0e100 else 1.2 / rho

/-- Far from a line the upper bound has fallen below the lower one, and the inverse length of the
cell lies above both. -/
def BoundsCross (basis : Basis ℝ) (k : ℂ) (rho : ℝ) : Prop :=
  match basis with
  | .line a => farBound rho < ‖k‖ / 20 ∧ ‖k‖ / 20 ≤ √(Real.pi / a.dot a)
  | .plane _ _ => False

theorem farBound_pos {rho : ℝ} (nonnegative : 0 ≤ rho) : 0 < farBound rho := by
  unfold farBound
  split
  · norm_num
  · rename_i apart
    have : 0 < rho := lt_of_le_of_ne nonnegative (Ne.symm apart)
    positivity

/-! ## The parameter of a line -/

theorem lineSplitting_eq (length2 rho2 w : ℝ) (nonnegative : 0 ≤ rho2) :
    lineSplitting length2 rho2 (√rho2) w =
      if √(Real.pi / length2) < w / 20 then w / 20
      else if farBound (√rho2) < √(Real.pi / length2) then farBound (√rho2)
      else √(Real.pi / length2) := by
  have onLine : (rho2 == (0.0 : ℝ)) = decide (√rho2 = 0) := by
    rw [Bool.eq_iff_iff, beq_iff_eq, decide_eq_true_iff, Real.sqrt_eq_zero nonnegative]
    norm_num
  have twenty : (20.0 : ℝ) = 20 := by norm_num
  unfold lineSplitting farBound
  simp only [onLine, twenty, sqrt_exact, pi_exact, decide_eq_true_iff]

theorem lineSplitting_pos (length2 rho2 w : ℝ) (long : 0 < length2) (nonnegative : 0 ≤ rho2) :
    0 < lineSplitting length2 rho2 (√rho2) w := by
  have inverse : 0 < √(Real.pi / length2) := Real.sqrt_pos.mpr (div_pos Real.pi_pos long)
  rw [lineSplitting_eq length2 rho2 w nonnegative]
  split
  · rename_i raised
    exact inverse.trans raised
  · split
    · exact farBound_pos (Real.sqrt_nonneg rho2)
    · exact inverse

theorem le_lineSplitting_iff (length2 rho2 w : ℝ) (nonnegative : 0 ≤ rho2) :
    w / 20 ≤ lineSplitting length2 rho2 (√rho2) w ↔
      ¬ (farBound (√rho2) < w / 20 ∧ w / 20 ≤ √(Real.pi / length2)) := by
  rw [lineSplitting_eq length2 rho2 w nonnegative]
  split
  · rename_i raised
    simp only [le_refl, true_iff, not_and, not_le]
    exact fun _ => raised
  · rename_i unraised
    rw [not_lt] at unraised
    split
    · rename_i lowered
      simp only [unraised, and_true, not_lt]
    · rename_i unlowered
      rw [not_lt] at unlowered
      simp only [unraised, and_true, not_lt, true_iff]
      exact unraised.trans unlowered

/-! ## The parameter of a plane -/

theorem dot_self_nonneg (v : Vec2 ℝ) : 0 ≤ v.dot v :=
  add_nonneg (mul_self_nonneg v.x) (mul_self_nonneg v.y)

theorem planeSplitting_eq_max (area w : ℝ) (gamma1 gamma2 : Vec2 ℝ) :
    planeSplitting area w gamma1 gamma2 =
      max √(Real.pi / |area|) (√(w * w + gamma1.dot gamma1 + gamma2.dot gamma2) / 10) := by
  have ten : (10.0 : ℝ) = 10 := by norm_num
  unfold planeSplitting
  simp only [ten, sqrt_exact, pi_exact, abs_exact]
  split
  · rename_i below
    exact (max_eq_right below.le).symm
  · rename_i above
    exact (max_eq_left (not_lt.mp above)).symm

theorem planeSplitting_pos (area w : ℝ) (gamma1 gamma2 : Vec2 ℝ) (nonzero : area ≠ 0) :
    0 < planeSplitting area w gamma1 gamma2 := by
  rw [planeSplitting_eq_max]
  exact lt_max_of_lt_left (Real.sqrt_pos.mpr (div_pos Real.pi_pos (abs_pos.mpr nonzero)))

theorem le_planeSplitting (area w : ℝ) (gamma1 gamma2 : Vec2 ℝ) (nonnegative : 0 ≤ w) :
    w / 20 ≤ planeSplitting area w gamma1 gamma2 := by
  have longer : w ≤ √(w * w + gamma1.dot gamma1 + gamma2.dot gamma2) := by
    refine Real.le_sqrt_of_sq_le ?_
    have := dot_self_nonneg gamma1
    have := dot_self_nonneg gamma2
    nlinarith
  rw [planeSplitting_eq_max]
  refine le_max_of_le_right ?_
  linarith

/-! ## Reciprocal lattices -/

theorem dot_self_pos {a : Vec2 ℝ} (spans : (Basis.line a).Spans) : 0 < a.dot a := by
  obtain ⟨long, -⟩ := spans
  have : 0 < a.x * a.x := mul_self_pos.mpr long
  have : 0 ≤ a.y * a.y := mul_self_nonneg a.y
  unfold Vec2.dot
  linarith

/-- A line along x has a reciprocal lattice, whose parameter depends on the distance of the
point. -/
theorem ofLine_of_spans {a : Vec2 ℝ} (spans : (Basis.line a).Spans) (k : ℂ) (point : Vec3 ℝ) :
    ∃ r, ofLine a k point = .ok r ∧ r.rho = √(point.y ^ 2 + point.z ^ 2) ∧
      r.optimalSplitting = lineSplitting (a.dot a) (point.y ^ 2 + point.z ^ 2) r.rho ‖k‖ := by
  have filled : (a.dot a == (0.0 : ℝ)) = false := by
    rw [beq_eq_false_iff_ne]
    norm_num [(dot_self_pos spans).ne']
  have along : ((0 : ℝ) == 0.0) = true := by
    rw [beq_iff_eq]
    norm_num
  have projected : point.planar.dot a / a.dot a * a.x = point.x := by
    have := spans.1
    simp only [Vec2.dot, Vec3.planar, spans.2, mul_zero, add_zero]
    field_simp
  unfold ofLine
  simp only [filled, along, Bool.false_eq_true, Bool.not_true, if_false, projected, spans.2]
  refine ⟨_, rfl, ?_, ?_⟩ <;>
  · simp only [Vec2.dot, sqrt_exact, modulus_exact, sub_self, mul_zero, sub_zero, zero_add, sq]

/-- A plane with an area has a reciprocal lattice. -/
theorem ofPlane_of_spans {a1 a2 : Vec2 ℝ} (spans : (Basis.plane a1 a2).Spans) (k : ℂ) :
    ∃ r, ofPlane a1 a2 k = .ok r ∧
      r.optimalSplitting = planeSplitting (a1.cross a2) ‖k‖ r.gamma1 r.gamma2 := by
  have filled : (a1.cross a2 == (0.0 : ℝ)) = false := by
    rw [beq_eq_false_iff_ne]
    norm_num [show a1.cross a2 ≠ 0 from spans]
  unfold ofPlane
  simp only [filled, Bool.false_eq_true, if_false]
  exact ⟨_, rfl, rfl⟩

/-- Vectors that span a cell have a reciprocal lattice at every point. -/
theorem exists_construct {basis : Basis ℝ} (spans : basis.Spans) (k : ℂ) (point : Vec3 ℝ) :
    ∃ r, construct basis k point = .ok r := by
  cases basis with
  | line a => exact (ofLine_of_spans spans k point).imp fun _ built => built.1
  | plane a1 a2 => exact (ofPlane_of_spans spans k).imp fun _ built => built.1

/-- Vectors that span no cell are refused. -/
theorem spans_of_construct {basis : Basis ℝ} {k : ℂ} {point : Vec3 ℝ} {r : Reciprocal ℝ}
    (accepted : construct basis k point = .ok r) : basis.Spans := by
  cases basis with
  | line a =>
    unfold construct ofLine at accepted
    dsimp only at accepted
    split at accepted
    · cases accepted
    rename_i filled
    split at accepted
    · cases accepted
    rename_i along
    have flat : a.y = 0 := by
      norm_num at along
      exact along
    refine ⟨?_, flat⟩
    rintro short
    refine filled ?_
    norm_num [Vec2.dot, flat, short]
  | plane a1 a2 =>
    intro no_area
    have empty : (a1.cross a2 == (0.0 : ℝ)) = true := by
      rw [beq_iff_eq, no_area]
      norm_num
    unfold construct ofPlane at accepted
    simp only [empty, if_true] at accepted
    cases accepted

/-- The parameter chosen for a basis is positive, and it stays above a twentieth of the wavenumber
unless the bounds of a line have crossed. -/
theorem optimalSplitting_bounds {basis : Basis ℝ} {k : ℂ} {point : Vec3 ℝ} {r : Reciprocal ℝ}
    (accepted : construct basis k point = .ok r) :
    0 < r.optimalSplitting ∧
      (‖k‖ / 20 ≤ r.optimalSplitting ↔ ¬ BoundsCross basis k r.rho) := by
  have spans := spans_of_construct accepted
  cases basis with
  | line a =>
    obtain ⟨r', built, distance, parameter⟩ := ofLine_of_spans spans k point
    obtain rfl : r' = r := Except.ok.inj (built.symm.trans accepted)
    have square : 0 ≤ point.y ^ 2 + point.z ^ 2 := by positivity
    rw [parameter, distance]
    exact ⟨lineSplitting_pos _ _ _ (dot_self_pos spans) square, le_lineSplitting_iff _ _ _ square⟩
  | plane a1 a2 =>
    obtain ⟨r', built, parameter⟩ := ofPlane_of_spans spans k
    obtain rfl : r' = r := Except.ok.inj (built.symm.trans accepted)
    rw [parameter]
    refine ⟨planeSplitting_pos _ _ _ _ spans, ?_⟩
    simp only [le_planeSplitting _ _ _ _ (norm_nonneg k), BoundsCross, not_false_eq_true]

/-! ## Propagating orders -/

open LineTransform (scaledArgument)
open ExponentialIntegral (expInt)

theorem transverse_ofReal (wavenumber kx : ℝ) :
    LineOrder.transverse (wavenumber : ℂ) kx = (kx ^ 2 - wavenumber ^ 2 : ℝ) := by
  apply Complex.ext
  · rw [Complex.ofReal_re]
    simp [LineOrder.transverse, transverseSquare, sq]
  · rw [Complex.ofReal_im]
    simp [LineOrder.transverse, transverseSquare]

/-- Scaled part by part, the argument is scaled as a whole. -/
theorem scaledArgument_eq (kt2 : ℂ) (eta : ℝ) :
    scaledArgument kt2 eta = kt2 / (4 * eta ^ 2 : ℝ) := by
  have quarter : (0.25 / (eta * eta) : ℝ) = 1 / (4 * eta ^ 2) := by
    rw [← sq, ← div_div]
    norm_num
  apply Complex.ext
  · rw [Complex.div_ofReal_re, div_eq_mul_one_div, ← quarter]
    rfl
  · rw [Complex.div_ofReal_im, div_eq_mul_one_div, ← quarter]
    rfl

theorem scaledArgument_ofReal (kt2 eta : ℝ) :
    scaledArgument (kt2 : ℂ) eta = (kt2 / (4 * eta ^ 2) : ℝ) := by
  rw [scaledArgument_eq, Complex.ofReal_div]

/-- A propagating order asks for the exponential integral on the negative axis. -/
theorem scaledArgument_transverse (wavenumber kx eta : ℝ) :
    scaledArgument (LineOrder.transverse (wavenumber : ℂ) kx) eta =
      -((wavenumber ^ 2 - kx ^ 2) / (4 * eta ^ 2) : ℝ) := by
  rw [transverse_ofReal, scaledArgument_ofReal, ← Complex.ofReal_neg, ← neg_div, neg_sub]

theorem sq_div_four_sq_le {w eta : ℝ} (nonnegative : 0 ≤ w) (positive : 0 < eta)
    (bounded : w / 20 ≤ eta) : w ^ 2 / (4 * eta ^ 2) ≤ 100 := by
  rw [div_le_iff₀ (by positivity)]
  nlinarith

/-- The bound on the splitting parameter. It is positive for every accepted basis, and it keeps to
the lower bound `|k| / 20`, so that `k ^ 2 / 4 E ^ 2` stays within the radius 100, exactly where the
bounds of a line have not crossed. A propagating order is cut to zero exactly if its argument lies
beyond that radius; where the bounds have not crossed, none does. -/
theorem le_optimalSplitting_iff {basis : Basis ℝ} {k : ℂ} {point : Vec3 ℝ} {r : Reciprocal ℝ}
    (accepted : construct basis k point = .ok r) :
    0 < r.optimalSplitting ∧
      (‖k‖ / 20 ≤ r.optimalSplitting ↔ ¬ BoundsCross basis k r.rho) ∧
      (¬ BoundsCross basis k r.rho → ‖k ^ 2 / (4 * r.optimalSplitting ^ 2 : ℝ)‖ ≤ 100) ∧
      ∀ wavenumber kx : ℝ, k = wavenumber → 0 < wavenumber → kx ^ 2 < wavenumber ^ 2 →
        ((expInt (scaledArgument (LineOrder.transverse k kx) r.optimalSplitting)).value = 0 ↔
          100 < ‖scaledArgument (LineOrder.transverse k kx) r.optimalSplitting‖) ∧
        (¬ BoundsCross basis k r.rho →
          ‖scaledArgument (LineOrder.transverse k kx) r.optimalSplitting‖ ≤ 100) := by
  obtain ⟨positive, bounded⟩ := optimalSplitting_bounds accepted
  refine ⟨positive, bounded, fun uncrossed => ?_, ?_⟩
  · have size : ‖k ^ 2 / (4 * r.optimalSplitting ^ 2 : ℝ)‖ =
        ‖k‖ ^ 2 / (4 * r.optimalSplitting ^ 2) := by
      rw [norm_div, norm_pow, Complex.norm_real, Real.norm_of_nonneg (by positivity)]
    rw [size]
    exact sq_div_four_sq_le (norm_nonneg k) positive (bounded.mpr uncrossed)
  · rintro wavenumber kx rfl real propagates
    have argument : 0 < (wavenumber ^ 2 - kx ^ 2) / (4 * r.optimalSplitting ^ 2) :=
      div_pos (sub_pos.mpr propagates) (by positivity)
    rw [scaledArgument_transverse, norm_neg, Complex.norm_real, Real.norm_of_nonneg argument.le]
    refine ⟨ExponentialIntegral.expInt_neg_eq_zero_iff argument, fun uncrossed => ?_⟩
    have above := bounded.mpr uncrossed
    rw [Complex.norm_real, Real.norm_of_nonneg real.le] at above
    refine le_trans ?_ (sq_div_four_sq_le real.le positive above)
    gcongr
    nlinarith [sq_nonneg kx]

/-- The reciprocal lattice of a line of unit cells for the wavenumber one. -/
theorem exists_unitLine (height : ℝ) (positive : 0 < height) :
    ∃ r, construct (.line ⟨1, 0⟩) (1 : ℂ) ⟨0, 0, height⟩ = .ok r ∧ r.rho = height ∧
      farBound r.rho = 1.2 / height ∧
      r.optimalSplitting = if 1.2 / height < √Real.pi then 1.2 / height else √Real.pi := by
  have spans : (Basis.line (⟨1, 0⟩ : Vec2 ℝ)).Spans := ⟨one_ne_zero, rfl⟩
  obtain ⟨r, built, distance, parameter⟩ := ofLine_of_spans spans (1 : ℂ) ⟨0, 0, height⟩
  have unit : (⟨1, 0⟩ : Vec2 ℝ).dot ⟨1, 0⟩ = 1 := by norm_num [Vec2.dot]
  have far : r.rho = height := by
    rw [distance, zero_pow two_ne_zero, zero_add, Real.sqrt_sq positive.le]
  have bound : farBound height = 1.2 / height := if_neg positive.ne'
  have unraised : ¬ √Real.pi < 1 / 20 := by
    rw [not_lt]
    refine Real.le_sqrt_of_sq_le ?_
    have := Real.pi_gt_three
    norm_num
    linarith
  refine ⟨r, built, far, by rw [far, bound], ?_⟩
  rw [parameter, distance, lineSplitting_eq _ _ _ (by positivity), ← distance, far, bound, unit,
    div_one, norm_one, if_neg unraised]

theorem unitLine_one_keeps_bound :
    ∃ r, construct (.line ⟨1, 0⟩) (1 : ℂ) ⟨0, 0, 1⟩ = .ok r ∧
      ‖(1 : ℂ)‖ / 20 ≤ r.optimalSplitting ∧
      (expInt (scaledArgument (LineOrder.transverse (1 : ℂ) 0) r.optimalSplitting)).value ≠ 0 := by
  obtain ⟨r, built, distance, bound, -⟩ := exists_unitLine 1 one_pos
  have uncrossed : ¬ BoundsCross (.line ⟨1, 0⟩) (1 : ℂ) r.rho := by
    rintro ⟨crossed, -⟩
    rw [bound] at crossed
    norm_num at crossed
  obtain ⟨-, bounded, -, orders⟩ := le_optimalSplitting_iff built
  obtain ⟨cut, within⟩ := orders 1 0 (by norm_num) one_pos (by norm_num)
  exact ⟨r, built, bounded.mpr uncrossed, fun zero => (within uncrossed).not_gt (cut.mp zero)⟩

/-- Thirty cells away from the line the parameter lies below its lower bound, and the order along
the normal, which propagates, is cut to zero. -/
theorem unitLine_thirty_cuts_order :
    ∃ r, construct (.line ⟨1, 0⟩) (1 : ℂ) ⟨0, 0, 30⟩ = .ok r ∧
      r.optimalSplitting < ‖(1 : ℂ)‖ / 20 ∧
      ¬ LineTransform.crossover < r.rho * r.optimalSplitting ∧
      LineTransform.series (LineOrder.transverse (1 : ℂ) 0) r.rho r.optimalSplitting =
        pure ⟨0, 0, 0⟩ := by
  obtain ⟨r, built, distance, -, parameter⟩ := exists_unitLine 30 (by norm_num)
  have small : r.optimalSplitting = 1 / 25 := by
    have lowered : (1.2 / 30 : ℝ) < √Real.pi := by
      refine Real.lt_sqrt_of_sq_lt ?_
      have := Real.pi_gt_three
      norm_num
      linarith
    rw [parameter, if_pos lowered]
    norm_num
  have beyond : 100 < ‖scaledArgument (LineOrder.transverse (1 : ℂ) 0) r.optimalSplitting‖ := by
    rw [← Complex.ofReal_one, scaledArgument_transverse, small, norm_neg, Complex.norm_real]
    norm_num
  refine ⟨r, built, ?_, ?_, ?_⟩
  · rw [small]
    norm_num
  · rw [distance, small, LineTransform.crossover]
    norm_num
  · have apart : (r.rho == (0.0 : ℝ)) = false := by
      rw [beq_eq_false_iff_ne, distance]
      norm_num
    unfold LineTransform.series
    simp [ExponentialIntegral.expInt_of_beyond beyond, apart]

end Reciprocal

end LatticeGreen
