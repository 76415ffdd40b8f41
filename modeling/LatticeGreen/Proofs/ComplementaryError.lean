import LatticeGreen.Proofs.ExactScalars
import LatticeGreen.ScaledErfc
import Mathlib

/-!
# The complementary error function

Its value at the origin and its derivative settle an entire function. With the scaled function that
belongs to it, the product that is written without overflow is the plain product.
-/
namespace LatticeGreen
open Complex

/-- The complementary error function: one at the origin, with a Gaussian derivative. -/
structure IsErfc (erfc : ℂ → ℂ) : Prop where
  zero : erfc 0 = 1
  hasDerivAt : ∀ w, HasDerivAt erfc (-(2 / √Real.pi : ℝ) * exp (-w ^ 2)) w

/-- The scaled function that the kernels ask for belongs to a complementary error function. -/
def Scales [SpecialFunctions ℂ] (erfc : ℂ → ℂ) : Prop := ∀ w : ℂ, erfcx w = exp (w ^ 2) * erfc w

namespace IsErfc

/-- A Gaussian has a primitive in the whole plane. -/
theorem exists_isErfc : ∃ erfc, IsErfc erfc := by
  have entire : Differentiable ℂ fun w : ℂ => -(2 / √Real.pi : ℝ) * exp (-w ^ 2) := by fun_prop
  obtain ⟨g, primitive⟩ := entire.isExactOn_univ
  refine ⟨fun w => g w - g 0 + 1, by simp, fun w => ?_⟩
  exact ((primitive w (Set.mem_univ w)).sub_const (g 0)).add_const 1

variable {erfc : ℂ → ℂ} (error : IsErfc erfc)
include error

/-- The two tails of the Gaussian make up the whole. -/
theorem neg (w : ℂ) : erfc (-w) = 2 - erfc w := by
  have flat : ∀ w, HasDerivAt (fun w => erfc (-w) + erfc w) 0 w := by
    intro w
    have mirrored := (error.hasDerivAt (-w)).comp w (hasDerivAt_neg w)
    refine (mirrored.add (error.hasDerivAt w)).congr_deriv ?_
    rw [neg_sq]
    ring
  have constant := is_const_of_deriv_eq_zero (fun w => (flat w).differentiableAt)
    (fun w => (flat w).deriv) w 0
  simp only [neg_zero, error.zero] at constant
  linear_combination constant

theorem differentiable : Differentiable ℂ erfc := fun w => (error.hasDerivAt w).differentiableAt

end IsErfc

theorem negatedSquare_exact (b : ℂ) : negatedSquare b = -b ^ 2 := by
  apply Complex.ext <;> norm_num [negatedSquare, sq] <;> ring

/-- On both half planes the product is formed as it reads, if the scaled function is right on one of
them. -/
theorem scaledErfc_of_reflection [SpecialFunctions ℂ] {erfc : ℂ → ℂ}
    (scaled : ∀ w : ℂ, 0 ≤ w.re → erfcx w = exp (w ^ 2) * erfc w)
    (reflection : ∀ w, erfc (-w) = 2 - erfc w) (a b : ℂ) : scaledErfc a b = exp a * erfc b := by
  have unscaled : exp (a + negatedSquare b) * exp (b ^ 2) = exp a := by
    rw [negatedSquare_exact, ← Complex.exp_add]
    congr 1
    ring
  have two : ((2.0 : ℝ) : ℂ) = 2 := by norm_num
  have zero : (0.0 : ℝ) = 0 := by norm_num
  unfold scaledErfc
  simp only [cexp_exact, ofReal_exact, re_exact, zero]
  split
  · next right => rw [scaled b right, ← mul_assoc, unscaled]
  · next left =>
    have opposite : 0 ≤ (-b).re := by
      rw [Complex.neg_re]
      linarith
    rw [scaled (-b) opposite, neg_sq, ← mul_assoc, unscaled, reflection, two]
    ring

theorem scaledErfc_eq [SpecialFunctions ℂ] {erfc : ℂ → ℂ} (error : IsErfc erfc)
    (scaled : Scales erfc) (a b : ℂ) : scaledErfc a b = exp a * erfc b :=
  scaledErfc_of_reflection (fun w _ => scaled w) error.neg a b

@[simp] theorem finiteOrZero_exact (z : ℂ) : finiteOrZero z = z := by
  unfold finiteOrZero
  rw [finiteParts_exact, if_pos rfl]

/-- The entire function that the conditions single out. -/
noncomputable def exactErfc : ℂ → ℂ := IsErfc.exists_isErfc.choose

theorem isErfc_exactErfc : IsErfc exactErfc := IsErfc.exists_isErfc.choose_spec

/-- The special functions of the complex numbers. The modified Bessel functions are written for the
right half plane. -/
noncomputable instance : SpecialFunctions ℂ where
  erfcx w := Complex.exp (w ^ 2) * exactErfc w
  erf w := 1 - exactErfc w
  besselK z :=
    let k (order : ℝ) := ∫ t in Set.Ioi (0 : ℝ),
      Complex.exp (-z * Real.cosh t) * Real.cosh (order * t)
    (k 0, k 1, k 2)

theorem scales_exactErfc : Scales exactErfc := fun _ => rfl

end LatticeGreen
