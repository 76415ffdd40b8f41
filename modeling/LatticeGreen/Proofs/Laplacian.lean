import Mathlib

/-!
# The Laplacian of waves

The Laplacian of a function is the sum of its second derivatives along orthonormal directions. For
a spherical wave only the profile of the distance is left of it, and for a plane wave with a profile
along one direction the square of the wave vector and the curvature of the profile.
-/
namespace LatticeGreen
open Laplacian Topology

section
variable {ι E : Type} [Fintype ι] [NormedAddCommGroup E] [InnerProductSpace ℝ E] {x : E}

theorem hasFDerivAt_norm (apart : x ≠ 0) :
    HasFDerivAt (fun y : E => ‖y‖) (‖x‖⁻¹ • innerSL ℝ x) x := by
  have square := (hasStrictFDerivAt_norm_sq x).hasFDerivAt.sqrt (by simpa using apart)
  refine (square.congr_of_eventuallyEq ?_).congr_fderiv ?_
  · exact .of_forall fun y => (Real.sqrt_sq (norm_nonneg y)).symm
  · rw [Real.sqrt_sq (norm_nonneg x)]
    ext v
    simp
    ring

/-- The derivative of a function of the distance along a direction. -/
theorem fderiv_radial {W : ℝ → ℂ} {W' : ℂ} (apart : x ≠ 0) (slope : HasDerivAt W W' ‖x‖) (v : E) :
    fderiv ℝ (fun y => W ‖y‖) x v = (inner ℝ x v : ℝ) * (W' / ‖x‖) := by
  have chain : HasFDerivAt (fun y : E => W ‖y‖) _ x :=
    slope.hasFDerivAt.comp x (hasFDerivAt_norm apart)
  rw [chain.fderiv]
  simp
  ring

variable [FiniteDimensional ℝ E] {f : E → ℂ}

/-- The Laplacian is the sum of the second derivatives along orthonormal directions. -/
theorem laplacian_eq_sum_fderiv (smooth : ContDiffAt ℝ 2 f x) (e : OrthonormalBasis ι ℝ E) :
    Δ f x = ∑ i, fderiv ℝ (fun y => fderiv ℝ f y (e i)) x (e i) := by
  have first : DifferentiableAt ℝ (fderiv ℝ f) x :=
    (smooth.fderiv_right (m := 1) (by norm_num)).differentiableAt (by norm_num)
  rw [InnerProductSpace.laplacian_eq_iteratedFDeriv_orthonormalBasis f e]
  refine Finset.sum_congr rfl fun i _ => ?_
  rw [iteratedFDeriv_two_apply, fderiv_clm_apply first (differentiableAt_const _)]
  simp

/-- A plane wave with a profile along one direction. -/
theorem laplacian_wave (wave : E →L[ℝ] ℂ) (height : E →L[ℝ] ℝ) {F F' : ℝ → ℂ} {F'' : ℂ}
    (smooth : ContDiff ℝ 2 F) (slope : ∀ z, HasDerivAt F (F' z) z)
    (curvature : HasDerivAt F' F'' (height x)) (e : OrthonormalBasis ι ℝ E) :
    ContDiffAt ℝ 2 (fun y => Complex.exp (wave y) * F (height y)) x ∧
      Δ (fun y => Complex.exp (wave y) * F (height y)) x = Complex.exp (wave x) *
        ((∑ i, wave (e i) ^ 2) * F (height x) +
          2 * (∑ i, wave (e i) * height (e i)) * F' (height x) +
          (∑ i, (height (e i) : ℂ) ^ 2) * F'') := by
  have smooth_wave : ContDiffAt ℝ 2 (fun y => Complex.exp (wave y) * F (height y)) x :=
    (wave.contDiff.cexp.mul (smooth.comp height.contDiff)).contDiffAt
  refine ⟨smooth_wave, ?_⟩
  have oscillation : ∀ y, HasFDerivAt (fun y => Complex.exp (wave y))
      (Complex.exp (wave y) • wave) y := fun y => wave.hasFDerivAt.cexp
  have first : ∀ y v, fderiv ℝ (fun y => Complex.exp (wave y) * F (height y)) y v =
      Complex.exp (wave y) * (wave v * F (height y) + height v * F' (height y)) := by
    intro y v
    have profile : HasFDerivAt (fun y => F (height y)) _ y :=
      (slope (height y)).hasFDerivAt.comp y height.hasFDerivAt
    rw [((oscillation y).fun_mul profile).fderiv]
    simp
    ring
  have second : ∀ v, fderiv ℝ (fun y => fderiv ℝ (fun y => Complex.exp (wave y) * F (height y))
      y v) x v = Complex.exp (wave x) * (wave v ^ 2 * F (height x) +
        2 * (wave v * height v) * F' (height x) + (height v : ℂ) ^ 2 * F'') := by
    intro v
    have profile : HasFDerivAt (fun y => F (height y)) _ x :=
      (slope (height x)).hasFDerivAt.comp x height.hasFDerivAt
    have steepness : HasFDerivAt (fun y => F' (height y)) _ x :=
      curvature.hasFDerivAt.comp x height.hasFDerivAt
    have both := (profile.const_mul (wave v)).fun_add (steepness.const_mul (height v : ℂ))
    simp only [first]
    rw [((oscillation x).fun_mul both).fderiv]
    simp
    ring
  rw [laplacian_eq_sum_fderiv smooth_wave e]
  simp only [second, ← Finset.mul_sum, Finset.sum_add_distrib, ← Finset.sum_mul]

end

/-! ## Spherical waves -/

/-- In space the Laplacian of a function of the distance is its second derivative and twice its
first over the distance. -/
theorem laplacian_radial {x : EuclideanSpace ℝ (Fin 3)} (apart : x ≠ 0) {W W' : ℝ → ℂ} {W'' : ℂ}
    (smooth : ContDiffAt ℝ 2 (fun y : EuclideanSpace ℝ (Fin 3) => W ‖y‖) x)
    (slope : ∀ r, 0 < r → HasDerivAt W (W' r) r) (curvature : HasDerivAt W' W'' ‖x‖) :
    Δ (fun y : EuclideanSpace ℝ (Fin 3) => W ‖y‖) x = W'' + 2 * (W' ‖x‖ / ‖x‖) := by
  have positive : 0 < ‖x‖ := norm_pos_iff.mpr apart
  have nonzero : (‖x‖ : ℂ) ≠ 0 := by exact_mod_cast positive.ne'
  have quotient : HasDerivAt (fun r => W' r / r) ((W'' * ‖x‖ - W' ‖x‖) / ‖x‖ ^ 2) ‖x‖ := by
    have identity : HasDerivAt (fun r : ℝ => (r : ℂ)) 1 ‖x‖ := Complex.ofRealCLM.hasDerivAt
    simpa using curvature.fun_div identity nonzero
  have along : ∀ v : EuclideanSpace ℝ (Fin 3),
      fderiv ℝ (fun y => fderiv ℝ (fun y => W ‖y‖) y v) x v =
        (inner ℝ v v : ℝ) * (W' ‖x‖ / ‖x‖) +
          ((inner ℝ x v : ℝ) : ℂ) ^ 2 * ((W'' * ‖x‖ - W' ‖x‖) / ‖x‖ ^ 3) := by
    intro v
    have near : (fun y => fderiv ℝ (fun y => W ‖y‖) y v) =ᶠ[𝓝 x]
        fun y => ((inner ℝ y v : ℝ) : ℂ) * (W' ‖y‖ / ‖y‖) := by
      filter_upwards [isOpen_ne.mem_nhds apart] with y away
      exact fderiv_radial away (slope _ (norm_pos_iff.mpr away)) v
    have linear : HasFDerivAt (fun y : EuclideanSpace ℝ (Fin 3) => ((inner ℝ y v : ℝ) : ℂ))
        (Complex.ofRealCLM ∘L (innerSL ℝ).flip v) x :=
      (Complex.ofRealCLM ∘L (innerSL ℝ).flip v).hasFDerivAt
    have chain : HasFDerivAt (fun y : EuclideanSpace ℝ (Fin 3) => W' ‖y‖ / ‖y‖) _ x :=
      quotient.hasFDerivAt.comp x (hasFDerivAt_norm apart)
    rw [near.fderiv_eq, (linear.fun_mul chain).fderiv]
    simp only [add_apply, smul_apply,
      ContinuousLinearMap.comp_apply, ContinuousLinearMap.toSpanSingleton_apply,
      ContinuousLinearMap.flip_apply, innerSL_apply_apply, Complex.ofRealCLM_apply, smul_eq_mul,
      Complex.real_smul]
    push_cast
    field_simp
    ring
  have unit : ∀ i, inner ℝ (EuclideanSpace.basisFun (Fin 3) ℝ i)
      (EuclideanSpace.basisFun (Fin 3) ℝ i) = (1 : ℝ) := by
    intro i
    rw [real_inner_self_eq_norm_sq, OrthonormalBasis.norm_eq_one, one_pow]
  have length : ∑ i, ((inner ℝ x (EuclideanSpace.basisFun (Fin 3) ℝ i) : ℝ) : ℂ) ^ 2 = ‖x‖ ^ 2 := by
    exact_mod_cast (EuclideanSpace.basisFun (Fin 3) ℝ).sum_sq_inner_left x
  simp only [laplacian_eq_sum_fderiv smooth (EuclideanSpace.basisFun (Fin 3) ℝ), along, unit,
    Finset.sum_add_distrib, ← Finset.sum_mul, length]
  simp
  field_simp
  ring

/-- A spherical wave: the Laplacian acts on the profile alone. -/
theorem laplacian_spherical {x : EuclideanSpace ℝ (Fin 3)} (apart : x ≠ 0) {h h' : ℝ → ℂ}
    {h'' : ℂ} (smooth : ContDiff ℝ 2 h) (slope : ∀ r, HasDerivAt h (h' r) r)
    (curvature : HasDerivAt h' h'' ‖x‖) :
    ContDiffAt ℝ 2 (fun y : EuclideanSpace ℝ (Fin 3) => h ‖y‖ / ‖y‖) x ∧
      Δ (fun y : EuclideanSpace ℝ (Fin 3) => h ‖y‖ / ‖y‖) x = h'' / ‖x‖ := by
  have nonzero : ∀ {r : ℝ}, 0 < r → (r : ℂ) ≠ 0 := fun positive => by exact_mod_cast positive.ne'
  have far : 0 < ‖x‖ := norm_pos_iff.mpr apart
  have identity : ∀ r : ℝ, HasDerivAt (fun r : ℝ => (r : ℂ)) 1 r := fun r =>
    Complex.ofRealCLM.hasDerivAt
  have distance : ContDiffAt ℝ 2 (fun y : EuclideanSpace ℝ (Fin 3) => (‖y‖ : ℂ)) x :=
    Complex.ofRealCLM.contDiff.contDiffAt.comp x (contDiffAt_norm ℝ apart)
  have smooth_quotient : ContDiffAt ℝ 2 (fun y : EuclideanSpace ℝ (Fin 3) => h ‖y‖ / ‖y‖) x :=
    (smooth.contDiffAt.comp x (contDiffAt_norm ℝ apart)).mul (distance.inv (nonzero far))
  refine ⟨smooth_quotient, ?_⟩
  have slope_quotient : ∀ r : ℝ, 0 < r →
      HasDerivAt (fun r : ℝ => h r / r) ((h' r * r - h r) / r ^ 2) r := by
    intro r positive
    simpa using (slope r).fun_div (identity r) (nonzero positive)
  have curvature_quotient : HasDerivAt (fun r : ℝ => (h' r * r - h r) / (r : ℂ) ^ 2)
      ((h'' * ‖x‖ * ‖x‖ ^ 2 - (h' ‖x‖ * ‖x‖ - h ‖x‖) * (2 * ‖x‖)) / (‖x‖ ^ 2) ^ 2) ‖x‖ := by
    have top := (curvature.fun_mul (identity ‖x‖)).fun_sub (slope ‖x‖)
    have bottom := (identity ‖x‖).fun_pow 2
    refine (top.fun_div bottom (pow_ne_zero 2 (nonzero far))).congr_deriv ?_
    simp
  rw [laplacian_radial apart smooth_quotient slope_quotient curvature_quotient]
  have := nonzero far
  field_simp
  ring

end LatticeGreen
