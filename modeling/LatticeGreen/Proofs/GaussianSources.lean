import LatticeGreen.Distant
import LatticeGreen.Nearby
import LatticeGreen.Proofs.ComplementaryError
import LatticeGreen.Proofs.Laplacian
import LatticeGreen.Proofs.SplittingBounds

/-!
# The sources of the two halves

The kernel solves the Helmholtz equation away from its source. Its two halves solve it with
Gaussian sources: the short-range half of every cell with one around the cell, and every order of a
plane with one around the plane, of the opposite sign. That the derivatives which the kernels carry
along are derivatives of what they carry is most of the way.
-/
namespace LatticeGreen
open Laplacian Topology

/-! ## Tails of a Gaussian -/

/-- The tail of a Gaussian beyond `b + c t`, times an exponential that makes its derivative even in
`t`. -/
noncomputable def gaussTail (erfc : ℂ → ℂ) (b c : ℂ) (t : ℝ) : ℂ :=
  Complex.exp (2 * b * c * t) * erfc (b + c * t)

section
variable {erfc : ℂ → ℂ} (error : IsErfc erfc)
include error

theorem hasDerivAt_gaussTail (b c : ℂ) (t : ℝ) :
    HasDerivAt (gaussTail erfc b c) (2 * b * c * gaussTail erfc b c t -
      (2 / √Real.pi : ℝ) * c * Complex.exp (-b ^ 2 - c ^ 2 * t ^ 2)) t := by
  have identity : HasDerivAt (fun t : ℝ => (t : ℂ)) 1 t := Complex.ofRealCLM.hasDerivAt
  have growth := (identity.const_mul (2 * b * c)).cexp
  have argument : HasDerivAt (fun t : ℝ => b + c * t) (c * 1) t :=
    (identity.const_mul c).const_add b
  have tail := (error.hasDerivAt (b + c * t)).comp t argument
  have exponents : Complex.exp (2 * b * c * t) * Complex.exp (-(b + c * t) ^ 2) =
      Complex.exp (-b ^ 2 - c ^ 2 * t ^ 2) := by
    rw [← Complex.exp_add]
    congr 1
    ring
  refine (growth.fun_mul tail).congr_deriv ?_
  rw [← exponents]
  unfold gaussTail
  simp only [Function.comp_apply]
  ring

theorem contDiff_gaussTail (b c : ℂ) : ContDiff ℝ 2 (gaussTail erfc b c) := by
  have cast : ContDiff ℝ 2 fun t : ℝ => (t : ℂ) := Complex.ofRealCLM.contDiff
  have entire : ContDiff ℝ 2 erfc := error.differentiable.contDiff.restrict_scalars ℝ
  exact (contDiff_const.mul cast).cexp.mul
    (entire.comp (contDiff_const.add (contDiff_const.mul cast)))

end

/-- A point of Euclidean space as a vector of three entries. -/
def entries (x : EuclideanSpace ℝ (Fin 3)) : Vec3 ℝ := ⟨x 0, x 1, x 2⟩

/-- A function solves the inhomogeneous Helmholtz equation at a point. -/
def SolvesHelmholtz (k : ℂ) (u : EuclideanSpace ℝ (Fin 3) → ℂ) (x : EuclideanSpace ℝ (Fin 3))
    (source : ℂ) : Prop :=
  ContDiffAt ℝ 2 u x ∧ Δ u x + k ^ 2 * u x = source

theorem sqrt_lengthSquare (x : EuclideanSpace ℝ (Fin 3)) :
    √(FreeSpace.lengthSquare (entries x)) = ‖x‖ := by
  rw [EuclideanSpace.norm_eq, Fin.sum_univ_three]
  simp only [FreeSpace.lengthSquare, entries, Real.norm_eq_abs, sq_abs, ← sq]

/-- A half more than a whole power. -/
theorem pi_rpow_add_half (n : ℕ) : Real.pi ^ (n + 1 / 2 : ℝ) = Real.pi ^ n * √Real.pi := by
  rw [Real.rpow_add Real.pi_pos, Real.rpow_natCast, Real.sqrt_eq_rpow]

/-! ## The short-range half of a cell -/

section
variable [SpecialFunctions ℂ] {erfc : ℂ → ℂ} (error : IsErfc erfc) (scaled : Scales erfc)
include error scaled

theorem radialParts_eq (k : ℂ) {E : ℝ} (positive : 0 < E) (r : ℝ) :
    let b := Complex.I * k / (2 * E)
    ShortRange.radialParts k E r =
      { both := gaussTail erfc b E r + gaussTail erfc (-b) E r
        odd := gaussTail erfc b E r - gaussTail erfc (-b) E r
        gauss := -(4 * E / √Real.pi : ℝ) * Complex.exp (-b ^ 2 - E ^ 2 * r ^ 2) } := by
  have nonzero : (E : ℂ) ≠ 0 := by exact_mod_cast positive.ne'
  intro b
  have exponent : 2 * b * E = Complex.I * k := by
    simp only [b]
    field_simp
  have square : -b ^ 2 = k * k / ((4 * (E * E) : ℝ) : ℂ) := by
    simp only [b]
    push_cast
    field_simp
    rw [Complex.I_sq]
    ring
  have plus : scaledErfc (Complex.I * k * r)
      (((E * r : ℝ) : ℂ) + Complex.I * k / ((2 * E : ℝ) : ℂ)) = gaussTail erfc b E r := by
    rw [scaledErfc_eq error scaled, gaussTail, exponent]
    push_cast
    congr 2
    ring
  have minus : scaledErfc (-Complex.I * k * r)
      (((E * r : ℝ) : ℂ) - Complex.I * k / ((2 * E : ℝ) : ℂ)) = gaussTail erfc (-b) E r := by
    have exponent' : 2 * -b * E = -Complex.I * k := by linear_combination -exponent
    rw [scaledErfc_eq error scaled, gaussTail, exponent']
    push_cast
    congr 2
    ring
  have two : (2.0 : ℝ) = 2 := by norm_num
  have four : (4.0 : ℝ) = 4 := by norm_num
  unfold ShortRange.radialParts
  simp only [imaginaryUnit_exact, ofReal_exact, cexp_exact, two, four, plus, minus, square,
    twoOverRootPi, sqrt_exact, pi_exact]
  congr 1
  · push_cast
    congr 2
    · ring
    · ring

/-- The radial derivatives that the kernel carries along are those of its parts. -/
theorem hasDerivAt_radialParts (k : ℂ) {E : ℝ} (positive : 0 < E) (r : ℝ) :
    let parts := ShortRange.radialParts k E
    HasDerivAt (fun r => (parts r).both)
        (Complex.I * k * (parts r).odd + (parts r).gauss) r ∧
      HasDerivAt (fun r => (parts r).odd) (Complex.I * k * (parts r).both) r ∧
      HasDerivAt (fun r => (parts r).gauss) (-(2 * E ^ 2 * r) * (parts r).gauss) r := by
  have nonzero : (E : ℂ) ≠ 0 := by exact_mod_cast positive.ne'
  have exponent : 2 * (Complex.I * k / (2 * E)) * E = Complex.I * k := by field_simp
  have plus := hasDerivAt_gaussTail error (Complex.I * k / (2 * E)) E r
  have minus := hasDerivAt_gaussTail error (-(Complex.I * k / (2 * E))) E r
  rw [exponent] at plus
  rw [neg_sq, mul_neg, neg_mul, exponent] at minus
  have identity : HasDerivAt (fun r : ℝ => (r : ℂ)) 1 r := Complex.ofRealCLM.hasDerivAt
  intro parts
  simp only [parts, radialParts_eq error scaled k positive]
  refine ⟨(plus.fun_add minus).congr_deriv ?_, (plus.fun_sub minus).congr_deriv ?_, ?_⟩
  · push_cast
    ring
  · ring
  · have bell := ((((identity.fun_pow 2).const_mul ((E : ℂ) ^ 2)).const_sub
      (-(Complex.I * k / (2 * E)) ^ 2)).cexp).const_mul (-(4 * E / √Real.pi : ℝ) : ℂ)
    refine bell.congr_deriv ?_
    push_cast
    ring

theorem contDiff_both (k : ℂ) {E : ℝ} (positive : 0 < E) :
    ContDiff ℝ 2 fun r => (ShortRange.radialParts k E r).both := by
  simp only [radialParts_eq error scaled k positive]
  exact (contDiff_gaussTail error _ _).add (contDiff_gaussTail error _ _)

omit error scaled in
theorem value_shortRange (k : ℂ) (E : ℝ) (phase : ℂ) {y : EuclideanSpace ℝ (Fin 3)}
    (apart : 1e-6 < ‖y‖) :
    (ShortRange.term k E ⟨entries y, phase⟩).value =
      phase / (8 * Real.pi : ℝ) * (ShortRange.radialParts k E ‖y‖).both / ‖y‖ := by
  have eight : (8.0 : ℝ) = 8 := by norm_num
  have kept : (1.0e-6 : ℝ) ≤ ‖y‖ := by
    norm_num at apart ⊢
    exact apart.le
  unfold ShortRange.term
  simp only [sqrt_exact, sqrt_lengthSquare, if_pos kept, Slots.map, finiteOrZero_exact,
    ShortRange.slots, ofReal_exact, pi_exact, eight]
  ring

/-- The short-range half of a cell solves the Helmholtz equation with a Gaussian around the cell as
its source. -/
theorem solves_shortRange (k : ℂ) {E : ℝ} (positive : 0 < E) (phase : ℂ)
    {x : EuclideanSpace ℝ (Fin 3)} (apart : 1e-6 < ‖x‖) :
    SolvesHelmholtz k (fun y => (ShortRange.term k E ⟨entries y, phase⟩).value) x
      (phase * (E ^ 3 / Real.pi ^ (3 / 2 : ℝ) : ℝ) *
        Complex.exp (k ^ 2 / (4 * E ^ 2) - E ^ 2 * ‖x‖ ^ 2)) := by
  let u := fun y => (ShortRange.term k E ⟨entries y, phase⟩).value
  change SolvesHelmholtz k u x _
  let parts := ShortRange.radialParts k E
  let c : ℂ := phase / (8 * Real.pi : ℝ)
  have away : x ≠ 0 := by
    rintro rfl
    norm_num at apart
  have radial : u =ᶠ[𝓝 x] fun y => c * (parts ‖y‖).both / ‖y‖ := by
    filter_upwards [(isOpen_lt continuous_const continuous_norm).mem_nhds apart] with y beyond
    exact value_shortRange k E phase beyond
  obtain ⟨-, odd, bell⟩ := hasDerivAt_radialParts error scaled k positive ‖x‖
  have slope : ∀ r, HasDerivAt (fun r => c * (parts r).both)
      (c * (Complex.I * k * (parts r).odd + (parts r).gauss)) r := fun r =>
    (hasDerivAt_radialParts error scaled k positive r).1.const_mul c
  have curvature := ((odd.const_mul (Complex.I * k)).fun_add bell).const_mul c
  obtain ⟨smooth, laplacian⟩ := laplacian_spherical away
    (contDiff_const.mul (contDiff_both error scaled k positive)) slope curvature
  refine ⟨smooth.congr_of_eventuallyEq radial, ?_⟩
  rw [(InnerProductSpace.laplacian_congr_nhds radial).eq_of_nhds, laplacian, radial.eq_of_nhds]
  have center : (‖x‖ : ℂ) ≠ 0 := by exact_mod_cast (norm_pos_iff.mpr away).ne'
  have nonzero : (E : ℂ) ≠ 0 := by exact_mod_cast positive.ne'
  have root : (√Real.pi : ℂ) ≠ 0 := by exact_mod_cast (Real.sqrt_pos.mpr Real.pi_pos).ne'
  have power : Real.pi ^ (3 / 2 : ℝ) = Real.pi * √Real.pi := by
    convert pi_rpow_add_half 1 using 2 <;> norm_num
  have bell_eq : (parts ‖x‖).gauss = -(4 * E / √Real.pi : ℝ) *
      Complex.exp (k ^ 2 / (4 * E ^ 2) - E ^ 2 * ‖x‖ ^ 2) := by
    have square : -(Complex.I * k / (2 * E)) ^ 2 = k ^ 2 / (4 * E ^ 2) := by
      field_simp
      rw [Complex.I_sq]
      ring
    simp only [parts, radialParts_eq error scaled k positive, square]
  calc c * (Complex.I * k * (Complex.I * k * (parts ‖x‖).both) +
          -(2 * E ^ 2 * ‖x‖) * (parts ‖x‖).gauss) / ‖x‖ +
        k ^ 2 * (c * (parts ‖x‖).both / ‖x‖)
      = c * (-(2 * E ^ 2) * (parts ‖x‖).gauss) := by
        field_simp
        rw [Complex.I_sq]
        ring
    _ = _ := by
        rw [bell_eq, power]
        simp only [c]
        push_cast
        field_simp
        ring

/-! ## An order of a plane -/

theorem profile_eq (q : ℂ) {E : ℝ} (positive : 0 < E) (z : ℝ) :
    let b := q / (2 * E)
    PlaneFactor.profile z E q =
      { value := gaussTail erfc b E z + gaussTail erfc b (-E) z
        slope := q * (gaussTail erfc b E z - gaussTail erfc b (-E) z) } := by
  have nonzero : (E : ℂ) ≠ 0 := by exact_mod_cast positive.ne'
  intro b
  have exponent : 2 * b * E = q := by
    simp only [b]
    field_simp
  have half : ((0.5 : ℝ) : ℂ) * q / E = b := by
    have one_half : ((0.5 : ℝ) : ℂ) = 1 / 2 := by norm_num
    rw [one_half]
    simp only [b]
    field_simp
  have up : scaledErfc (q * z) (b + ((z * E : ℝ) : ℂ)) = gaussTail erfc b E z := by
    rw [scaledErfc_eq error scaled, gaussTail, exponent]
    push_cast
    rw [mul_comm (z : ℂ)]
  have down : scaledErfc (-q * z) (b - ((z * E : ℝ) : ℂ)) = gaussTail erfc b (-E) z := by
    have exponent' : 2 * b * -E = -q := by linear_combination -exponent
    rw [scaledErfc_eq error scaled, gaussTail, exponent']
    push_cast
    congr 2
    ring
  -- The Gaussians of the two slopes are one and the same, and cancel.
  have same : q * z - (b + ((z * E : ℝ) : ℂ)) * (b + ((z * E : ℝ) : ℂ)) =
      -q * z - (b - ((z * E : ℝ) : ℂ)) * (b - ((z * E : ℝ) : ℂ)) := by
    rw [← exponent]
    push_cast
    ring
  unfold PlaneFactor.profile
  simp only [ofReal_exact, cexp_exact, half, up, down, same]
  congr 1
  ring

/-- The slope of a profile is its derivative, and its curvature is the square of the propagation
constant but for a Gaussian. -/
theorem hasDerivAt_profile (q : ℂ) {E : ℝ} (positive : 0 < E) (z : ℝ) :
    let profile := fun z => PlaneFactor.profile z E q
    HasDerivAt (fun z => (profile z).value) (profile z).slope z ∧
      HasDerivAt (fun z => (profile z).slope) (q ^ 2 * (profile z).value -
        (4 * E / √Real.pi : ℝ) * q * Complex.exp (-(q / (2 * E)) ^ 2 - E ^ 2 * z ^ 2)) z := by
  have nonzero : (E : ℂ) ≠ 0 := by exact_mod_cast positive.ne'
  have exponent : 2 * (q / (2 * E)) * E = q := by field_simp
  have up := hasDerivAt_gaussTail error (q / (2 * E)) E z
  have down := hasDerivAt_gaussTail error (q / (2 * E)) (-E) z
  rw [exponent] at up
  rw [mul_neg, exponent, neg_sq] at down
  intro profile
  simp only [profile, profile_eq error scaled q positive]
  refine ⟨(up.fun_add down).congr_deriv ?_, ((up.fun_sub down).const_mul q).congr_deriv ?_⟩
  · ring
  · push_cast
    ring

theorem contDiff_profile (q : ℂ) {E : ℝ} (positive : 0 < E) :
    ContDiff ℝ 2 fun z => (PlaneFactor.profile z E q).value := by
  simp only [profile_eq error scaled q positive]
  exact (contDiff_gaussTail error _ _).add (contDiff_gaussTail error _ _)

end

theorem sq_propagation (k : ℂ) (p : Vec2 ℝ) :
    PlaneOrder.propagation k p ^ 2 = (p.dot p : ℝ) - k ^ 2 := by
  have square : (transverseSquare (p.x * p.x + p.y * p.y) k : ℂ) = (p.dot p : ℝ) - k ^ 2 := by
    apply Complex.ext <;> simp [transverseSquare, Vec2.dot, sq]
  unfold PlaneOrder.propagation
  rw [sq_csqrt, square]

/-- An order that does not graze the plane propagates away from it or decays. -/
theorem propagation_ne_zero {k : ℂ} (wave : k ≠ 0) {p : Vec2 ℝ}
    (regular : PlaneOrder.anySingular k [p] = false) : PlaneOrder.propagation k p ≠ 0 := by
  intro grazing
  have beyond : ¬ ‖PlaneOrder.propagation k p‖ < singularThreshold * ‖k‖ := by
    simpa [PlaneOrder.anySingular, grazes] using regular
  rw [grazing, norm_zero] at beyond
  exact beyond (mul_pos (by norm_num [singularThreshold]) (norm_pos_iff.mpr wave))

/-- The exponent of a plane wave along the plane. -/
noncomputable def planarWave (p : Vec2 ℝ) : EuclideanSpace ℝ (Fin 3) →L[ℝ] ℂ :=
  Complex.I • (Complex.ofRealCLM ∘L (p.x • EuclideanSpace.proj 0 + p.y • EuclideanSpace.proj 1 :
    EuclideanSpace ℝ (Fin 3) →L[ℝ] ℝ))

theorem planarWave_apply (p : Vec2 ℝ) (x : EuclideanSpace ℝ (Fin 3)) :
    planarWave p x = Complex.I * (p.dot (entries x).planar : ℝ) := rfl

/-- Along the plane the Laplacian takes the square of the wave vector off a wave, across it it acts
on the profile alone. -/
theorem laplacian_planarWave (p : Vec2 ℝ) {x : EuclideanSpace ℝ (Fin 3)} {F F' : ℝ → ℂ} {F'' : ℂ}
    (smooth : ContDiff ℝ 2 F) (slope : ∀ z, HasDerivAt F (F' z) z)
    (curvature : HasDerivAt F' F'' (x 2)) :
    ContDiffAt ℝ 2 (fun y : EuclideanSpace ℝ (Fin 3) => Complex.exp (planarWave p y) * F (y 2)) x ∧
      Δ (fun y : EuclideanSpace ℝ (Fin 3) => Complex.exp (planarWave p y) * F (y 2)) x =
        Complex.exp (planarWave p x) * (F'' - (p.dot p : ℝ) * F (x 2)) := by
  let height : EuclideanSpace ℝ (Fin 3) →L[ℝ] ℝ := EuclideanSpace.proj 2
  let e := EuclideanSpace.basisFun (Fin 3) ℝ
  have along : ∑ i, planarWave p (e i) ^ 2 = -(p.dot p : ℝ) := by
    simp [e, planarWave, Fin.sum_univ_three, mul_pow, Vec2.dot]
    ring
  have mixed : ∑ i, planarWave p (e i) * height (e i) = 0 := by
    simp [e, planarWave, height, Fin.sum_univ_three]
  have across : ∑ i, (height (e i) : ℂ) ^ 2 = 1 := by
    simp [e, height, Fin.sum_univ_three]
  obtain ⟨smooth_wave, laplacian⟩ := laplacian_wave (planarWave p) height smooth slope curvature e
  refine ⟨smooth_wave, laplacian.trans ?_⟩
  rw [along, mixed, across]
  change _ * (-(p.dot p : ℝ) * F (x 2) + 2 * 0 * F' (x 2) + 1 * F'') = _
  ring

/-- A sum as seen from a point of Euclidean space. -/
def Distant.seenFrom (far : Distant ℝ ℂ) (x : EuclideanSpace ℝ (Fin 3)) : Distant ℝ ℂ :=
  { far with point := entries x }

section
variable [SpecialFunctions ℂ] {erfc : ℂ → ℂ} (error : IsErfc erfc) (scaled : Scales erfc)

theorem value_planeTerm (k : ℂ) (E : ℝ) (x : EuclideanSpace ℝ (Fin 3)) (p : Vec2 ℝ) :
    (PlaneOrder.term k E (entries x) p).value =
      Complex.exp (Complex.I * (p.dot (entries x).planar : ℝ)) / PlaneOrder.propagation k p *
        (PlaneFactor.profile (x 2) E (PlaneOrder.propagation k p)).value := by
  simp only [PlaneOrder.term, PlaneFactor.factor, finiteOrZero_exact, cexp_exact,
    imaginaryUnit_exact, ofReal_exact]
  rfl

/-- The value of an order times the factor of the lattice, as a function of the point. -/
def Distant.IsOrder (far : Distant ℝ ℂ) (c : Cell) (v : EuclideanSpace ℝ (Fin 3) → ℂ) : Prop :=
  ∀ y, ∃ contribution factor, (far.seenFrom y).shell [c] = Attempt.done contribution [] ∧
    contribution.singular = false ∧ (far.seenFrom y).prefactor = .ok factor ∧
    v y = contribution.slots.value * factor

/-- The value of an order, times the factor of the lattice, is a plane wave along the plane with a
profile across it. -/
theorem value_planeShell (far : Distant ℝ ℂ) (plane : far.periodicity = .plane) (c : Cell)
    (regular : PlaneOrder.anySingular far.wavenumber [far.shifted c] = false)
    (x : EuclideanSpace ℝ (Fin 3)) :
    let p := far.shifted c
    let q := PlaneOrder.propagation far.wavenumber p
    let factor := far.reciprocal.zoneMeasure / (16 * (Real.pi * Real.pi))
    ∃ contribution, (far.seenFrom x).shell [c] = Attempt.done contribution [] ∧
      contribution.singular = false ∧ (far.seenFrom x).prefactor = .ok factor ∧
      contribution.slots.value * factor = Complex.exp (Complex.I * (p.dot (entries x).planar)) *
        (factor / q * (PlaneFactor.profile (x 2) far.splitting q).value) := by
  intro p q factor
  have sixteen : (16.0 : ℝ) = 16 := by norm_num
  have along : (far.seenFrom x).periodicity = .plane := plane
  refine ⟨⟨Slots.sum [PlaneOrder.term far.wavenumber far.splitting (entries x) p], false⟩,
    ?_, rfl, ?_, ?_⟩
  · unfold Distant.shell
    rw [along]
    change pure (PlaneOrder.shell far.wavenumber far.splitting (entries x) [p]) = _
    unfold PlaneOrder.shell
    rw [if_neg (by simp [p, regular])]
    rfl
  · unfold Distant.prefactor Periodicity.prefactor
    rw [along, sixteen]
    rfl
  · have only : Slots.sum [PlaneOrder.term far.wavenumber far.splitting (entries x) p] =
        PlaneOrder.term far.wavenumber far.splitting (entries x) p := by
      rw [exactAddition_complex.sum_eq, List.sum_singleton]
    change (Slots.sum [_]).value * _ = _
    rw [only, value_planeTerm]
    ring

include error scaled

/-- An order of a plane solves the Helmholtz equation with a Gaussian around the plane as its
source. -/
theorem exists_order_solves (far : Distant ℝ ℂ) (plane : far.periodicity = .plane)
    (positive : 0 < far.splitting) (wave : far.wavenumber ≠ 0) (c : Cell)
    (regular : PlaneOrder.anySingular far.wavenumber [far.shifted c] = false) :
    ∃ v, far.IsOrder c v ∧ ∀ x, SolvesHelmholtz far.wavenumber v x
      (-(far.reciprocal.zoneMeasure * far.splitting / (4 * Real.pi ^ (5 / 2 : ℝ)) : ℝ) *
        Complex.exp ((far.wavenumber ^ 2 - ((far.shifted c).dot (far.shifted c) : ℝ)) /
          (4 * far.splitting ^ 2) - far.splitting ^ 2 * x 2 ^ 2) *
        Complex.exp (Complex.I * ((far.shifted c).dot (entries x).planar : ℝ))) := by
  let p := far.shifted c
  let q := PlaneOrder.propagation far.wavenumber p
  let E := far.splitting
  let factor : ℝ := far.reciprocal.zoneMeasure / (16 * (Real.pi * Real.pi))
  let profile (z : ℝ) : HeightProfile ℂ := PlaneFactor.profile z E q
  refine ⟨fun y => Complex.exp (planarWave p y) * (factor / q * (profile (y 2)).value), ?_, ?_⟩
  · intro y
    obtain ⟨contribution, summed, once, known, value⟩ := value_planeShell far plane c regular y
    exact ⟨contribution, factor, summed, once, known, value.symm⟩
  intro x
  have slope := fun z =>
    (hasDerivAt_profile error scaled q positive z).1.const_mul (factor / q : ℂ)
  have curvature :=
    (hasDerivAt_profile error scaled q positive (x 2)).2.const_mul (factor / q : ℂ)
  obtain ⟨smooth, laplacian⟩ := laplacian_planarWave p
    (contDiff_const.mul (contDiff_profile error scaled q positive)) slope curvature
  refine ⟨smooth, ?_⟩
  have running : q ≠ 0 := propagation_ne_zero wave regular
  have bell : -(q / (2 * E)) ^ 2 = (far.wavenumber ^ 2 - (p.dot p : ℝ)) / (4 * E ^ 2) := by
    rw [div_pow, sq_propagation]
    ring
  have strength : (far.reciprocal.zoneMeasure * E / (4 * Real.pi ^ (5 / 2 : ℝ)) : ℝ) =
      factor * (4 * E / √Real.pi) := by
    have root : √Real.pi ≠ 0 := (Real.sqrt_pos.mpr Real.pi_pos).ne'
    have power : Real.pi ^ (5 / 2 : ℝ) = Real.pi ^ 2 * √Real.pi := by
      convert pi_rpow_add_half 2 using 2
      norm_num
    rw [power]
    simp only [factor]
    field_simp
    norm_num
  let value := (profile (x 2)).value
  let gauss := Complex.exp ((far.wavenumber ^ 2 - (p.dot p : ℝ)) / (4 * E ^ 2) - E ^ 2 * x 2 ^ 2)
  rw [laplacian, bell, sq_propagation, ← planarWave_apply, strength]
  change Complex.exp (planarWave p x) *
        (factor / q * (((p.dot p : ℝ) - far.wavenumber ^ 2) * value -
          (4 * E / √Real.pi : ℝ) * q * gauss) - (p.dot p : ℝ) * (factor / q * value)) +
      far.wavenumber ^ 2 * (Complex.exp (planarWave p x) * (factor / q * value)) =
    -(factor * (4 * E / √Real.pi) : ℝ) * gauss * Complex.exp (planarWave p x)
  push_cast
  field_simp
  ring

/-- The two halves of the split solve the Helmholtz equation with Gaussian sources of opposite
signs: the short-range half of every cell, as a function of the displacement from it, and every
order of a plane that does not graze it, as a function of the point. -/
theorem helmholtz_halves {E : ℝ} (positive : 0 < E) {k : ℂ} (wave : k ≠ 0) :
    (∀ (phase : ℂ) (x : EuclideanSpace ℝ (Fin 3)), 1e-6 < ‖x‖ →
      SolvesHelmholtz k (fun y => (ShortRange.term k E ⟨entries y, phase⟩).value) x
        (phase * (E ^ 3 / Real.pi ^ (3 / 2 : ℝ) : ℝ) *
          Complex.exp (k ^ 2 / (4 * E ^ 2) - E ^ 2 * ‖x‖ ^ 2))) ∧
    ∀ a1 a2 : Vec2 ℝ, (Basis.plane a1 a2).Spans → ∃ g : Reciprocal ℝ,
      (∀ point, Reciprocal.construct (.plane a1 a2) k point = .ok g) ∧
      ∀ (bloch : Vec2 ℝ) (c : Cell),
        let far : Distant ℝ ℂ := ⟨.plane, ⟨0, 0, 0⟩, k, bloch, g, E⟩
        let p := far.shifted c
        PlaneOrder.anySingular k [p] = false →
          ∃ v, far.IsOrder c v ∧ ∀ x, SolvesHelmholtz k v x
            (-(g.zoneMeasure * E / (4 * Real.pi ^ (5 / 2 : ℝ)) : ℝ) *
              Complex.exp ((k ^ 2 - (p.dot p : ℝ)) / (4 * E ^ 2) - E ^ 2 * x 2 ^ 2) *
              Complex.exp (Complex.I * (p.dot (entries x).planar : ℝ))) := by
  refine ⟨fun phase x apart => solves_shortRange error scaled k positive phase apart, ?_⟩
  intro a1 a2 spans
  obtain ⟨g, built, -⟩ := Reciprocal.ofPlane_of_spans spans k
  refine ⟨g, fun _ => built, ?_⟩
  intro bloch c far p regular
  exact exists_order_solves error scaled far rfl positive wave c regular

end

/-- The halves of a source at unit distance, and of the order straight along a Bloch vector of
length three over the unit square. -/
theorem helmholtz_halves_unit :
    SolvesHelmholtz 1 (fun y => (ShortRange.term 1 1 ⟨entries y, 1⟩).value)
      (EuclideanSpace.single 0 1) (1 * ((1 : ℝ) ^ 3 / Real.pi ^ (3 / 2 : ℝ) : ℝ) *
        Complex.exp (1 ^ 2 / (4 * (1 : ℝ) ^ 2) - (1 : ℝ) ^ 2 *
          ‖(EuclideanSpace.single 0 1 : EuclideanSpace ℝ (Fin 3))‖ ^ 2)) ∧
    ∃ g : Reciprocal ℝ, ∃ v,
      Reciprocal.construct (.plane ⟨1, 0⟩ ⟨0, 1⟩) (1 : ℂ) ⟨0, 0, 0⟩ = .ok g ∧
      (⟨.plane, ⟨0, 0, 0⟩, 1, ⟨3, 0⟩, g, 1⟩ : Distant ℝ ℂ).IsOrder ⟨0, 0⟩ v ∧
      SolvesHelmholtz 1 v 0 (-(g.zoneMeasure * 1 / (4 * Real.pi ^ (5 / 2 : ℝ)) : ℝ) *
        Complex.exp (-2)) := by
  obtain ⟨near, orders⟩ := helmholtz_halves isErfc_exactErfc scales_exactErfc
    (E := 1) one_pos (k := 1) one_ne_zero
  have square : (Basis.plane ⟨1, 0⟩ ⟨0, 1⟩).Spans := by norm_num [Basis.Spans, Vec2.cross]
  obtain ⟨g, built, far⟩ := orders ⟨1, 0⟩ ⟨0, 1⟩ square
  have straight : (⟨.plane, ⟨0, 0, 0⟩, 1, ⟨3, 0⟩, g, 1⟩ : Distant ℝ ℂ).shifted ⟨0, 0⟩ = ⟨3, 0⟩ := by
    simp [Distant.shifted, Reciprocal.vector]
  have regular : PlaneOrder.anySingular (1 : ℂ) [(⟨3, 0⟩ : Vec2 ℝ)] = false := by
    have size : ‖PlaneOrder.propagation (1 : ℂ) ⟨3, 0⟩‖ ^ 2 = 8 := by
      rw [← norm_pow, sq_propagation]
      norm_num [Vec2.dot]
    have beyond : ¬ ‖PlaneOrder.propagation (1 : ℂ) ⟨3, 0⟩‖ < singularThreshold * 1 := by
      intro grazing
      norm_num [singularThreshold] at grazing
      nlinarith [norm_nonneg (PlaneOrder.propagation (1 : ℂ) ⟨3, 0⟩)]
    simpa [PlaneOrder.anySingular, grazes] using beyond
  obtain ⟨v, order, solves⟩ := far ⟨3, 0⟩ ⟨0, 0⟩ (by rw [straight]; exact regular)
  refine ⟨near 1 _ (by norm_num), g, v, built _, order, ?_⟩
  have source := solves 0
  rw [straight] at source
  convert source using 1
  simp [Vec2.dot, entries, Vec3.planar]
  norm_num

end LatticeGreen
