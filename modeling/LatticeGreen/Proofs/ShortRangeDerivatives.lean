import LatticeGreen.Proofs.GaussianSources
import LatticeGreen.Proofs.PartialDerivatives

/-!
# The derivatives of the short-range kernel

The slots of the short-range kernel are the kernel and its partial derivatives. Their coefficients
come from differentiating a function of the distance three times over, each time dividing by the
distance; for that it only matters how the three radial functions of the kernel follow from each
other.
-/
namespace LatticeGreen
namespace ShortRange

/-- A wave in the distance: its slope, and a Gaussian that drives it. -/
structure DrivenWave (k : ℂ) (E : ℝ) where
  value : ℝ → ℂ
  slope : ℝ → ℂ
  drive : ℝ → ℂ
  hasDerivAt_value : ∀ r, HasDerivAt value (slope r) r
  hasDerivAt_slope : ∀ r, HasDerivAt slope (-k ^ 2 * value r - 2 * E ^ 2 * r * drive r) r
  hasDerivAt_drive : ∀ r, HasDerivAt drive (-2 * E ^ 2 * r * drive r) r

namespace DrivenWave
variable {k : ℂ} {E : ℝ} (wave : DrivenWave k E)

/-- The wave over the distance, and what is left of it after one, two and three derivatives that
are each divided by the distance. -/
noncomputable def rungs : ℕ → ℝ → ℂ
  | 0, r => wave.value r / r
  | 1, r => -(wave.value r / r ^ 3) + wave.slope r / r ^ 2
  | 2, r => 3 * (wave.value r / r ^ 5) - 3 * (wave.slope r / r ^ 4) -
      k ^ 2 * (wave.value r / r ^ 3) - 2 * E ^ 2 * (wave.drive r / r ^ 2)
  | _, r => -15 * (wave.value r / r ^ 7) + 15 * (wave.slope r / r ^ 6) +
      6 * k ^ 2 * (wave.value r / r ^ 5) + 5 * (2 * E ^ 2) * (wave.drive r / r ^ 4) -
      k ^ 2 * (wave.slope r / r ^ 4) + (2 * E ^ 2) ^ 2 * (wave.drive r / r ^ 2)

theorem hasDerivAt_div_pow {F : ℝ → ℂ} {slope : ℂ} {r : ℝ} (apart : r ≠ 0)
    (derivative : HasDerivAt F slope r) (n : ℕ) :
    HasDerivAt (fun r => F r / (r : ℂ) ^ n) (slope / r ^ n - n * F r / r ^ (n + 1)) r := by
  have nonzero : (r : ℂ) ≠ 0 := by exact_mod_cast apart
  have identity : HasDerivAt (fun r : ℝ => (r : ℂ)) 1 r := Complex.ofRealCLM.hasDerivAt
  refine (derivative.fun_div (identity.fun_pow n) (pow_ne_zero n nonzero)).congr_deriv ?_
  cases n with
  | zero => simp
  | succ n =>
    rw [Nat.add_sub_cancel]
    field_simp
    ring

/-- Each rung is the derivative of the one before it, divided by the distance. -/
theorem hasDerivAt_rungs {r : ℝ} (apart : r ≠ 0) {i : ℕ} (below : i < 3) :
    HasDerivAt (wave.rungs i) (r * wave.rungs (i + 1) r) r := by
  have nonzero : (r : ℂ) ≠ 0 := by exact_mod_cast apart
  have value := hasDerivAt_div_pow apart (wave.hasDerivAt_value r)
  have slope := hasDerivAt_div_pow apart (wave.hasDerivAt_slope r)
  have drive := hasDerivAt_div_pow apart (wave.hasDerivAt_drive r)
  -- The slope of a slope brings back the value and the drive, so each rung has coefficients of its
  -- own.
  have step : i = 0 ∨ i = 1 ∨ i = 2 := by omega
  obtain rfl | rfl | rfl := step
  · have first := value 1
    simp only [pow_one] at first
    refine first.congr_deriv ?_
    simp only [rungs]
    field_simp
    push_cast
    ring
  · refine ((value 3).fun_neg.fun_add (slope 2)).congr_deriv ?_
    simp only [rungs]
    field_simp
    push_cast
    ring
  · refine (((((value 5).const_mul 3).fun_sub ((slope 4).const_mul 3)).fun_sub
      ((value 3).const_mul (k ^ 2))).fun_sub ((drive 2).const_mul (2 * (E : ℂ) ^ 2))).congr_deriv ?_
    simp only [rungs]
    field_simp
    push_cast
    ring

/-- The wave over the distance from a point, with what its derivatives are made of. -/
theorem deriveAt_radial {d : Vec3 ℝ} (apart : 0 < FreeSpace.lengthSquare d) :
    Slots.DeriveAt (Slots.radial wave.rungs) d :=
  Slots.DeriveAt.radial apart fun _ below =>
    wave.hasDerivAt_rungs (Real.sqrt_pos.mpr apart).ne' below

end DrivenWave

/-- The short-range half of the kernel of a source, by its closed form. -/
noncomputable def kernel (erfc : ℂ → ℂ) (k : ℂ) (E : ℝ) (phase : ℂ) (d : Vec3 ℝ) : ℂ :=
  let r := √(FreeSpace.lengthSquare d)
  phase / (8 * Real.pi * r) *
    (Complex.exp (Complex.I * k * r) * erfc (E * r + Complex.I * k / (2 * E)) +
      Complex.exp (-Complex.I * k * r) * erfc (E * r - Complex.I * k / (2 * E)))

theorem lengthSquare_pos {d : Vec3 ℝ} (apart : 1e-6 < √(FreeSpace.lengthSquare d)) :
    0 < FreeSpace.lengthSquare d := by
  refine Real.sqrt_pos.mp (lt_trans ?_ apart)
  norm_num

section
variable [SpecialFunctions ℂ] {erfc : ℂ → ℂ} (error : IsErfc erfc) (scaled : Scales erfc)
variable (k : ℂ) {E : ℝ} (positive : 0 < E) (phase : ℂ)
include error scaled positive

/-- The radial functions of the kernel as a wave that a Gaussian drives. -/
noncomputable def wave : DrivenWave k E where
  value r := (radialParts k E r).both
  slope r := (radialParts k E r).gauss + Complex.I * k * (radialParts k E r).odd
  drive r := (radialParts k E r).gauss
  hasDerivAt_value r := by
    refine (hasDerivAt_radialParts error scaled k positive r).1.congr_deriv ?_
    ring
  hasDerivAt_slope r := by
    obtain ⟨-, odd, gauss⟩ := hasDerivAt_radialParts error scaled k positive r
    refine (gauss.fun_add (odd.const_mul (Complex.I * k))).congr_deriv ?_
    linear_combination (radialParts k E r).both * k ^ 2 * Complex.I_sq
  hasDerivAt_drive r := by
    refine (hasDerivAt_radialParts error scaled k positive r).2.2.congr_deriv ?_
    ring

/-- The program's coefficients are those of the derivatives. -/
theorem term_eq_radial {d : Vec3 ℝ} (apart : 1e-6 < √(FreeSpace.lengthSquare d)) :
    term k E ⟨d, phase⟩ = (Slots.radial (wave error scaled k positive).rungs d).map
      (phase / (8 * Real.pi : ℝ) * ·) := by
  have kept : (1.0e-6 : ℝ) ≤ √(FreeSpace.lengthSquare d) := by
    norm_num at apart ⊢
    exact apart.le
  have two : (2.0 : ℝ) = 2 := by norm_num
  have three : (3.0 : ℝ) = 3 := by norm_num
  have four : (4.0 : ℝ) = 4 := by norm_num
  have six : (6.0 : ℝ) = 6 := by norm_num
  have eight : (8.0 : ℝ) = 8 := by norm_num
  have ten : (10.0 : ℝ) = 10 := by norm_num
  have fifteen : (15.0 : ℝ) = 15 := by norm_num
  unfold term
  simp only [sqrt_exact, if_pos kept, ofReal_exact, pi_exact, finiteOrZero_exact]
  simp only [slots, Slots.radial, DrivenWave.rungs, wave, Slots.map, imaginaryUnit_exact,
    ofReal_exact, two, three, four, six, eight, ten, fifteen]
  push_cast
  congr 1 <;> ring

theorem kernel_eq_value {d : Vec3 ℝ} (apart : 1e-6 < √(FreeSpace.lengthSquare d)) :
    kernel erfc k E phase d = (term k E ⟨d, phase⟩).value := by
  have nonzero : (E : ℂ) ≠ 0 := by exact_mod_cast positive.ne'
  have exponent : 2 * (Complex.I * k / (2 * E)) * E = Complex.I * k := by field_simp
  have opposite : 2 * -(Complex.I * k / (2 * E)) * E = -Complex.I * k := by
    linear_combination -exponent
  rw [term_eq_radial error scaled k positive phase apart]
  simp only [Slots.map, Slots.radial, DrivenWave.rungs, wave, kernel,
    radialParts_eq error scaled k positive, gaussTail, exponent, opposite]
  rw [add_comm _ (E * _ : ℂ), add_comm _ (E * _ : ℂ), ← sub_eq_add_neg]
  push_cast
  ring

/-- The slots of the short-range half are the kernel and its partial derivatives in the displacement
from the source. -/
theorem term_eq_partials {d : Vec3 ℝ} (apart : 1e-6 < √(FreeSpace.lengthSquare d)) :
    term k E ⟨d, phase⟩ = Slots.partials (kernel erfc k E phase) d ∧
      Slots.DeriveAt (fun d => term k E ⟨d, phase⟩) d := by
  have isRegion := Slots.isRegion_beyond 1e-6
  have derive : ∀ d : Vec3 ℝ, 1e-6 < √(FreeSpace.lengthSquare d) →
      Slots.DeriveAt (fun d => term k E ⟨d, phase⟩) d := by
    intro d apart
    have radial := (wave error scaled k positive).deriveAt_radial (lengthSquare_pos apart)
    exact Slots.DeriveAt.congr isRegion apart
      (fun _ => term_eq_radial error scaled k positive phase) (radial.map _)
  have value : ∀ d : Vec3 ℝ, 1e-6 < √(FreeSpace.lengthSquare d) →
      kernel erfc k E phase d = (term k E ⟨d, phase⟩).value :=
    fun _ => kernel_eq_value error scaled k positive phase
  exact ⟨Slots.eq_partials isRegion derive value d apart, derive d apart⟩

end

/-- Three steps from a source, for a wavenumber and a splitting parameter of one. -/
theorem term_eq_partials_three :
    (0 : ℝ) < 1 ∧ 1e-6 < √(FreeSpace.lengthSquare (⟨1, 2, 2⟩ : Vec3 ℝ)) ∧
      term 1 (1 : ℝ) ⟨⟨1, 2, 2⟩, 1⟩ = Slots.partials (kernel exactErfc 1 1 1) ⟨1, 2, 2⟩ ∧
      Slots.DeriveAt (fun d => term 1 (1 : ℝ) ⟨d, 1⟩) ⟨1, 2, 2⟩ := by
  have positive : (0 : ℝ) < 1 := one_pos
  have apart : 1e-6 < √(FreeSpace.lengthSquare (⟨1, 2, 2⟩ : Vec3 ℝ)) := by
    have three : FreeSpace.lengthSquare (⟨1, 2, 2⟩ : Vec3 ℝ) = 3 ^ 2 := by
      unfold FreeSpace.lengthSquare
      norm_num
    rw [three, Real.sqrt_sq (by norm_num)]
    norm_num
  exact ⟨positive, apart, term_eq_partials isErfc_exactErfc scales_exactErfc 1 positive 1 apart⟩

end ShortRange
end LatticeGreen
