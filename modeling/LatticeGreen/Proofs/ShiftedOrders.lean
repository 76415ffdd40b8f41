import LatticeGreen.Proofs.GaussianSources
import LatticeGreen.Proofs.SingularRetry

/-!
# Orders after the shift of a retry

A singular sum is tried once more with the Bloch vector moved along x by a hundredth of the
wavenumber. The square of the wave vector of an order then changes in proportion to the distance of
its first component from minus half the shift. On a line the wave vector of a grazing order is as
long as the wavenumber, so that the shift moves it off. In a plane it may point across the shift: a
narrow strip of directions is mapped into its mirror image, and the order grazes as before.
-/
namespace LatticeGreen

/-- The square of the wave vector along the lattice is that of the wavenumber, but for eight
digits. -/
def Grazing (k : ℂ) (p2 : ℝ) : Prop := ‖(p2 : ℂ) - k ^ 2‖ < 1e-8 * ‖k‖ ^ 2

theorem transverseSquare_exact (p2 : ℝ) (k : ℂ) :
    (transverseSquare p2 k : ℂ) = (p2 : ℂ) - k ^ 2 := by
  apply Complex.ext <;> simp [transverseSquare, sq]

/-- The threshold for the size of a propagation constant is one for its square. -/
theorem grazes_iff {k : ℂ} {size p2 : ℝ} (nonnegative : 0 ≤ size)
    (square : size ^ 2 = ‖(p2 : ℂ) - k ^ 2‖) : grazes k size = true ↔ Grazing k p2 := by
  have threshold : (1e-8 : ℝ) * ‖k‖ ^ 2 = (1.0e-4 * ‖k‖) ^ 2 := by
    rw [mul_pow]
    norm_num
  have bound : (0 : ℝ) ≤ 1.0e-4 * ‖k‖ := mul_nonneg (by norm_num) (norm_nonneg k)
  unfold grazes Grazing
  rw [decide_eq_true_iff, ← square, threshold, sq_lt_sq₀ nonnegative bound]
  rfl

theorem LineOrder.isSingular_iff (k : ℂ) (kx : ℝ) :
    isSingular k kx = true ↔ Grazing k (kx ^ 2) := by
  refine grazes_iff (Real.sqrt_nonneg _) ?_
  rw [sqrt_exact, modulus_exact, Real.sq_sqrt (norm_nonneg _), transverse, transverseSquare_exact,
    sq kx]

theorem PlaneOrder.grazes_propagation_iff (k : ℂ) (p : Vec2 ℝ) :
    grazes k (modulus (propagation k p)) = true ↔ Grazing k (p.dot p) := by
  refine grazes_iff (norm_nonneg _) ?_
  rw [← sq_propagation, norm_pow, modulus_exact]

theorem PlaneOrder.anySingular_singleton_iff (k : ℂ) (p : Vec2 ℝ) :
    anySingular k [p] = true ↔ Grazing k (p.dot p) := by
  unfold anySingular
  rw [List.any_cons, List.any_nil, Bool.or_false, grazes_propagation_iff]

/-! ## The shift -/

namespace Distant
variable (far : Distant ℝ ℂ) (cell : Cell)

/-- The sum that a singular one is followed by. -/
noncomputable def retry : Distant ℝ ℂ := { far with bloch := shiftedBloch far.wavenumber far.bloch }

theorem singularShift_exact (k : ℂ) :
    PeriodicGreen.singularShift * modulus k = ‖k‖ / 100 := by
  norm_num [PeriodicGreen.singularShift]
  ring

theorem along_retry : far.retry.along cell = far.along cell + ‖far.wavenumber‖ / 100 := by
  unfold along retry shiftedBloch
  rw [singularShift_exact, add_sub_right_comm]

theorem shifted_retry : far.retry.shifted cell =
    ⟨(far.shifted cell).x + ‖far.wavenumber‖ / 100, (far.shifted cell).y⟩ := by
  unfold shifted retry shiftedBloch
  rw [singularShift_exact]
  exact congrArg (Vec2.mk · _) (add_sub_right_comm _ _ _)

end Distant

/-- Minus half the shift is where the shift leaves the square as it is. -/
theorem sq_add_shift (x w : ℝ) : (x + w / 100) ^ 2 = x ^ 2 + w / 50 * (x + w / 200) := by ring

namespace Grazing
variable {k : ℂ}

/-- An order that grazes before and after the shift lies in a strip around minus half the shift. -/
theorem near_mirror (wave : k ≠ 0) {x rest : ℝ} (before : Grazing k (x ^ 2 + rest))
    (after : Grazing k ((x + ‖k‖ / 100) ^ 2 + rest)) : |x + ‖k‖ / 200| < ‖k‖ / 10 ^ 6 := by
  have size : 0 < ‖k‖ := norm_pos_iff.mpr wave
  have change : ((x + ‖k‖ / 100) ^ 2 + rest : ℝ) - k ^ 2 - (((x ^ 2 + rest : ℝ) : ℂ) - k ^ 2) =
      (‖k‖ / 50 * (x + ‖k‖ / 200) : ℝ) := by
    rw [sq_add_shift]
    push_cast
    ring
  have close := norm_sub_le (((x + ‖k‖ / 100) ^ 2 + rest : ℝ) - k ^ 2)
    (((x ^ 2 + rest : ℝ) : ℂ) - k ^ 2)
  rw [change, Complex.norm_real, Real.norm_eq_abs, abs_mul, abs_of_pos (by positivity)] at close
  unfold Grazing at before after
  refine lt_of_mul_lt_mul_left (a := ‖k‖ / 50) ?_ (by positivity)
  calc ‖k‖ / 50 * |x + ‖k‖ / 200| < 1e-8 * ‖k‖ ^ 2 + 1e-8 * ‖k‖ ^ 2 := by linarith
    _ = ‖k‖ / 50 * (‖k‖ / 10 ^ 6) := by ring

/-- A grazing order of a line points along the shift. -/
theorem far_from_mirror (wave : k ≠ 0) {x : ℝ} (before : Grazing k (x ^ 2)) :
    ‖k‖ / 10 ^ 6 ≤ |x + ‖k‖ / 200| := by
  have size : 0 < ‖k‖ := norm_pos_iff.mpr wave
  by_contra close
  have short : |x| ≤ ‖k‖ / 100 := by
    have apart := abs_add_le (x + ‖k‖ / 200) (-(‖k‖ / 200))
    rw [add_neg_cancel_right, abs_neg, abs_of_pos (by positivity : 0 < ‖k‖ / 200)] at apart
    linarith
  have least := norm_sub_norm_le (k ^ 2) (x ^ 2 : ℝ)
  rw [norm_sub_rev, norm_pow, Complex.norm_real, Real.norm_eq_abs, abs_sq] at least
  have small : x ^ 2 ≤ (‖k‖ / 100) ^ 2 := sq_le_sq' (neg_le_of_abs_le short) (le_of_abs_le short)
  unfold Grazing at before
  nlinarith [sq_pos_of_pos size]

/-- For a real wavenumber the strip is no wider than it has to be: through each of its points goes a
wave vector that grazes before and after the shift. -/
theorem exists_of_near_mirror (lossless : k.im = 0) {x : ℝ}
    (near : |x + ‖k‖ / 200| < ‖k‖ / 10 ^ 6) :
    ∃ y : ℝ, Grazing k (x ^ 2 + y ^ 2) ∧ Grazing k ((x + ‖k‖ / 100) ^ 2 + y ^ 2) := by
  have size : 0 < ‖k‖ := by linarith [(abs_nonneg _).trans_lt near]
  let change : ℝ := ‖k‖ / 50 * (x + ‖k‖ / 200)
  have square : k ^ 2 = (‖k‖ ^ 2 : ℝ) := by
    have real : k = (k.re : ℂ) := Complex.ext rfl lossless
    rw [real, Complex.norm_real, Real.norm_eq_abs, sq_abs, Complex.ofReal_pow]
  have small : |change| < 2e-8 * ‖k‖ ^ 2 := by
    rw [abs_mul, abs_of_pos (by positivity)]
    calc ‖k‖ / 50 * |x + ‖k‖ / 200| < ‖k‖ / 50 * (‖k‖ / 10 ^ 6) := by gcongr
      _ = 2e-8 * ‖k‖ ^ 2 := by ring
  -- The wave vector is chosen so that the square passes that of the wavenumber halfway.
  have room : 0 ≤ ‖k‖ ^ 2 - change / 2 - x ^ 2 := by
    have short : x ^ 2 ≤ (‖k‖ / 100) ^ 2 := by
      rw [abs_lt] at near
      refine sq_le_sq' ?_ ?_ <;> linarith
    have := (abs_lt.mp small).2
    nlinarith
  refine ⟨√(‖k‖ ^ 2 - change / 2 - x ^ 2), ?_, ?_⟩
  · have before : ((x ^ 2 + (‖k‖ ^ 2 - change / 2 - x ^ 2) : ℝ) : ℂ) - k ^ 2 =
        (-(change / 2) : ℝ) := by
      rw [square]
      push_cast
      ring
    unfold Grazing
    rw [Real.sq_sqrt room, before, Complex.norm_real, Real.norm_eq_abs, abs_neg, abs_div, abs_two]
    linarith
  · have after : (((x + ‖k‖ / 100) ^ 2 + (‖k‖ ^ 2 - change / 2 - x ^ 2) : ℝ) : ℂ) - k ^ 2 =
        (change / 2 : ℝ) := by
      rw [square, sq_add_shift]
      simp only [change]
      push_cast
      ring
    unfold Grazing
    rw [Real.sq_sqrt room, after, Complex.norm_real, Real.norm_eq_abs, abs_div, abs_two]
    linarith

end Grazing

/-! ## Cleared orders -/

namespace Distant

/-- The Bloch vector for which an order has a given wave vector. -/
theorem exists_shifted_eq (far : Distant ℝ ℂ) (cell : Cell) (p : Vec2 ℝ) :
    ∃ bloch, ({ far with bloch } : Distant ℝ ℂ).shifted cell = p := by
  refine ⟨⟨p.x + (far.reciprocal.vector cell).x, p.y + (far.reciprocal.vector cell).y⟩, ?_⟩
  unfold shifted
  simp only [add_sub_cancel_right]

/-- The shift of the retry clears every grazing order of a line, and every grazing order of a plane
whose wave vector has its first component outside a strip around minus half the shift. In the middle
of the strip the order grazes again, and for a real wavenumber no narrower strip will do. -/
theorem retry_clears_order (far : Distant ℝ ℂ) (wave : far.wavenumber ≠ 0) (cell : Cell) :
    let k := far.wavenumber
    let p := far.shifted cell
    ((LineOrder.isSingular k (far.along cell) = true ↔
        ‖((far.along cell ^ 2 : ℝ) : ℂ) - k ^ 2‖ < 1e-8 * ‖k‖ ^ 2) ∧
      (LineOrder.isSingular k (far.along cell) = true →
        LineOrder.isSingular k (far.retry.along cell) = false)) ∧
    ((PlaneOrder.anySingular k [p] = true ↔ ‖((p.dot p : ℝ) : ℂ) - k ^ 2‖ < 1e-8 * ‖k‖ ^ 2) ∧
      (PlaneOrder.anySingular k [p] = true → ‖k‖ / 10 ^ 6 ≤ |p.x + ‖k‖ / 200| →
        PlaneOrder.anySingular k [far.retry.shifted cell] = false) ∧
      (p.x = -(‖k‖ / 200) → PlaneOrder.anySingular k [far.retry.shifted cell] =
        PlaneOrder.anySingular k [p]) ∧
      (k.im = 0 → ∀ x, |x + ‖k‖ / 200| < ‖k‖ / 10 ^ 6 → ∃ bloch,
        let far : Distant ℝ ℂ := { far with bloch }
        (far.shifted cell).x = x ∧ PlaneOrder.anySingular k [far.shifted cell] = true ∧
          PlaneOrder.anySingular k [far.retry.shifted cell] = true)) := by
  intro k p
  have square : ∀ q : Vec2 ℝ, q.dot q = q.x ^ 2 + q.y ^ 2 := fun q => by rw [Vec2.dot, sq, sq]
  refine ⟨⟨LineOrder.isSingular_iff _ _, fun before => ?_⟩,
    PlaneOrder.anySingular_singleton_iff _ _, fun before outside => ?_, fun mirrored => ?_,
    fun lossless x near => ?_⟩
  · rw [LineOrder.isSingular_iff] at before
    rw [Bool.eq_false_iff, Ne, LineOrder.isSingular_iff, far.along_retry]
    intro after
    have near : |far.along cell + ‖k‖ / 200| < ‖k‖ / 10 ^ 6 := by
      rw [← add_zero (far.along cell ^ 2)] at before
      rw [← add_zero (_ ^ 2)] at after
      exact before.near_mirror wave after
    exact (before.far_from_mirror wave).not_gt near
  · rw [PlaneOrder.anySingular_singleton_iff, square] at before
    rw [Bool.eq_false_iff, Ne, PlaneOrder.anySingular_singleton_iff, far.shifted_retry, square]
    intro after
    exact outside.not_gt (before.near_mirror wave after)
  · rw [Bool.eq_iff_iff, PlaneOrder.anySingular_singleton_iff,
      PlaneOrder.anySingular_singleton_iff, far.shifted_retry, square, square, sq_add_shift]
    change Grazing k (p.x ^ 2 + _ * (p.x + _) + p.y ^ 2) ↔ Grazing k (p.x ^ 2 + p.y ^ 2)
    rw [mirrored, neg_add_cancel, mul_zero, add_zero]
  · obtain ⟨y, before, after⟩ := Grazing.exists_of_near_mirror lossless near
    obtain ⟨bloch, reached⟩ := far.exists_shifted_eq cell ⟨x, y⟩
    refine ⟨bloch, by rw [reached], ?_, ?_⟩
    · rw [reached, PlaneOrder.anySingular_singleton_iff, square]
      exact before
    · rw [shifted_retry, reached, PlaneOrder.anySingular_singleton_iff, square]
      exact after

/-- The orders of the unit square at the wavenumber one, with a Bloch vector. -/
noncomputable def overUnitSquare (g : Reciprocal ℝ) (bloch : Vec2 ℝ) : Distant ℝ ℂ :=
  ⟨.plane, ⟨0, 0, 0⟩, 1, bloch, g, 1⟩

theorem shifted_overUnitSquare (g : Reciprocal ℝ) (bloch : Vec2 ℝ) :
    (overUnitSquare g bloch).shifted ⟨0, 0⟩ = bloch := by
  simp [overUnitSquare, shifted, Reciprocal.vector]

/-- An order that points along the diagonal of a rectangle is cleared. -/
theorem retry_clears_oblique_order :
    ∃ g : Reciprocal ℝ, Reciprocal.construct (.plane ⟨1, 0⟩ ⟨0, 1⟩) (1 : ℂ) ⟨0, 0, 0⟩ = .ok g ∧
      let far := overUnitSquare g ⟨3 / 5, 4 / 5⟩
      PlaneOrder.anySingular (1 : ℂ) [far.shifted ⟨0, 0⟩] = true ∧
        PlaneOrder.anySingular (1 : ℂ) [far.retry.shifted ⟨0, 0⟩] = false := by
  have square : (Basis.plane ⟨1, 0⟩ ⟨0, 1⟩).Spans := by norm_num [Basis.Spans, Vec2.cross]
  obtain ⟨g, built⟩ := Reciprocal.exists_construct square (1 : ℂ) ⟨0, 0, 0⟩
  obtain ⟨-, grazes, cleared, -, -⟩ :=
    retry_clears_order (overUnitSquare g ⟨3 / 5, 4 / 5⟩) one_ne_zero ⟨0, 0⟩
  have before := grazes.mpr (by
    rw [shifted_overUnitSquare]
    norm_num [overUnitSquare, Vec2.dot])
  have outside : ‖(1 : ℂ)‖ / 10 ^ 6 ≤
      |((overUnitSquare g ⟨3 / 5, 4 / 5⟩).shifted ⟨0, 0⟩).x + ‖(1 : ℂ)‖ / 200| := by
    rw [shifted_overUnitSquare]
    norm_num
  exact ⟨g, built, before, cleared before outside⟩

/-- An order that points across the shift, half of it back, is mirrored and grazes again. -/
theorem retry_mirrors_order :
    ∃ g : Reciprocal ℝ, Reciprocal.construct (.plane ⟨1, 0⟩ ⟨0, 1⟩) (1 : ℂ) ⟨0, 0, 0⟩ = .ok g ∧
      let far := overUnitSquare g ⟨-0.005, 0.9999875⟩
      PlaneOrder.anySingular (1 : ℂ) [far.shifted ⟨0, 0⟩] = true ∧
        PlaneOrder.anySingular (1 : ℂ) [far.retry.shifted ⟨0, 0⟩] = true := by
  have square : (Basis.plane ⟨1, 0⟩ ⟨0, 1⟩).Spans := by norm_num [Basis.Spans, Vec2.cross]
  obtain ⟨g, built⟩ := Reciprocal.exists_construct square (1 : ℂ) ⟨0, 0, 0⟩
  refine ⟨g, built, ?_, ?_⟩
  · rw [shifted_overUnitSquare, PlaneOrder.anySingular_singleton_iff]
    norm_num [Grazing, Vec2.dot, Complex.norm_def, Complex.normSq_apply]
  · rw [shifted_retry, shifted_overUnitSquare, PlaneOrder.anySingular_singleton_iff]
    norm_num [overUnitSquare, Grazing, Vec2.dot]

end Distant

end LatticeGreen
