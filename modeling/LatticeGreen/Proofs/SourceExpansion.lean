import LatticeGreen.Proofs.FreeSpaceDerivatives

/-!
# The long-range half around its source

What the short-range half leaves of the kernel has no singularity at the source. As a function of
the distance it extends to an even entire function, and the series that replaces it close to the
source is made of the first coefficients of this function. The slots of the series derive from its
value at every place, the source included.
-/
namespace LatticeGreen
open Complex (I exp)
open Asymptotics Polynomial Topology

/-- The error function: odd, with a Gaussian derivative in the whole plane. -/
structure IsErf (erf : ℂ → ℂ) : Prop where
  odd : ∀ w, erf (-w) = -erf w
  hasDerivAt : ∀ w, HasDerivAt erf ((2 / √Real.pi : ℝ) * exp (-w ^ 2)) w

/-- What a complementary error function leaves of one is an error function. -/
theorem isErf_of_isErfc {erfc : ℂ → ℂ} (error : IsErfc erfc) : IsErf fun w => 1 - erfc w where
  odd w := by
    rw [error.neg]
    ring
  hasDerivAt w := by
    apply ((error.hasDerivAt w).const_sub 1).congr_deriv
    ring

/-! ## Even extensions -/

/-- Functions of which each is the derivative of the one before. -/
theorem iteratedDeriv_eq_of_ladder {f : ℕ → ℂ → ℂ}
    (ladder : ∀ n r, HasDerivAt (f n) (f (n + 1) r) r) (n : ℕ) : iteratedDeriv n (f 0) = f n := by
  induction n with
  | zero => exact iteratedDeriv_zero
  | succ n ih =>
    rw [iteratedDeriv_succ, ih]
    funext r
    exact (ladder n r).deriv

/-- An even entire function that agrees with another function except at the origin, and its power
series there. -/
structure ExtendsEvenly (u F : ℂ → ℂ) (p : FormalMultilinearSeries ℂ ℂ ℂ) : Prop where
  entire : Differentiable ℂ F
  even : ∀ r, F (-r) = F r
  agrees : ∀ r, r ≠ 0 → F r = u r
  expansion : HasFPowerSeriesAt F p 0

namespace ExtendsEvenly
variable {u F : ℂ → ℂ} {p : FormalMultilinearSeries ℂ ℂ ℂ}

/-- There is only one power series, and Taylor's is one. -/
theorem coeff_eq (extension : ExtendsEvenly u F p) (n : ℕ) :
    p.coeff n = iteratedDeriv n F 0 / n.factorial := by
  have taylor := (extension.entire.analyticAt 0).hasFPowerSeriesAt
  rw [extension.expansion.eq_formalMultilinearSeries taylor]
  exact FormalMultilinearSeries.coeff_ofScalars

theorem coeff_odd (extension : ExtendsEvenly u F p) (n : ℕ) : p.coeff (2 * n + 1) = 0 := by
  have mirrored := iteratedDeriv_comp_neg (2 * n + 1) F 0
  simp only [extension.even, neg_zero, smul_eq_mul] at mirrored
  rw [Odd.neg_one_pow ⟨n, rfl⟩] at mirrored
  have vanishes : iteratedDeriv (2 * n + 1) F 0 = 0 := by linear_combination mirrored / 2
  rw [extension.coeff_eq, vanishes, zero_div]

/-- What the first coefficients leave of the function is of the sixth order. -/
theorem isBigO_sub (extension : ExtendsEvenly u F p) :
    (fun r => u r - (p.coeff 0 + p.coeff 2 * r ^ 2 + p.coeff 4 * (r ^ 2) ^ 2)) =O[𝓝[≠] 0]
      fun r => ‖r‖ ^ 6 := by
  have punctured : 𝓝[≠] (0 : ℂ) ≤ 𝓝 0 := nhdsWithin_le_nhds
  have order := (extension.expansion.isBigO_sub_partialSum_pow 6).mono punctured
  apply order.congr' _ Filter.EventuallyEq.rfl
  filter_upwards [self_mem_nhdsWithin] with r apart
  have odd := extension.coeff_odd
  rw [zero_add, extension.agrees r apart]
  congr 1
  simp only [FormalMultilinearSeries.partialSum, Finset.sum_range_succ, Finset.sum_range_zero,
    FormalMultilinearSeries.apply_eq_pow_smul_coeff, odd 0, odd 1, odd 2, smul_eq_mul]
  ring

/-- An odd entire function, divided by its argument. -/
theorem exists_of_odd {f : ℂ → ℂ} (entire : Differentiable ℂ f) (odd : ∀ r, f (-r) = -f r) :
    ∃ F p, ExtendsEvenly (fun r => f r / r) F p ∧
      ∀ n, p.coeff n = iteratedDeriv (n + 1) f 0 / (n + 1).factorial := by
  have taylor := (entire.analyticAt 0).hasFPowerSeriesAt
  have origin : f 0 = 0 := by
    have mirrored := odd 0
    rw [neg_zero] at mirrored
    linear_combination mirrored / 2
  have agrees : ∀ r, r ≠ 0 → dslope f 0 r = f r / r := by
    intro r apart
    rw [dslope_of_ne f apart, slope_def_field, origin, sub_zero, sub_zero]
  refine ⟨dslope f 0, _, ⟨?_, ?_, agrees, taylor.has_fpower_series_dslope_fslope⟩, ?_⟩
  · rw [← differentiableOn_univ, Complex.differentiableOn_dslope Filter.univ_mem]
    exact entire.differentiableOn
  · intro r
    by_cases here : r = 0
    · rw [here, neg_zero]
    · rw [agrees r here, agrees (-r) (neg_ne_zero.mpr here), odd, neg_div_neg_eq]
  · intro n
    rw [FormalMultilinearSeries.coeff_fslope, FormalMultilinearSeries.coeff_ofScalars]

end ExtendsEvenly

/-- A point that comes close to the origin without reaching it has a distance that does so. -/
theorem tendsto_distance :
    Filter.Tendsto (fun x : EuclideanSpace ℝ (Fin 3) => (‖x‖ : ℂ)) (𝓝[≠] 0) (𝓝[≠] 0) := by
  apply tendsto_nhdsWithin_of_tendsto_nhds_of_eventually_within
  · have continuous : Continuous fun x : EuclideanSpace ℝ (Fin 3) => (‖x‖ : ℂ) := by fun_prop
    have limit := (continuous.tendsto 0).mono_left (nhdsWithin_le_nhds (s := {0}ᶜ))
    rwa [norm_zero, Complex.ofReal_zero] at limit
  · filter_upwards [self_mem_nhdsWithin] with x apart
    exact Complex.ofReal_ne_zero.mpr (norm_ne_zero_iff.mpr apart)

namespace LongRange

/-- The long-range half of the kernel at a distance from its source, by its closed form. -/
noncomputable def kernel (erfc : ℂ → ℂ) (k : ℂ) (E : ℝ) (r : ℂ) : ℂ :=
  exp (I * k * r) / (4 * Real.pi * r) -
    (exp (I * k * r) * erfc (E * r + I * k / (2 * E)) +
      exp (-I * k * r) * erfc (E * r - I * k / (2 * E))) / (8 * Real.pi * r)

/-- It is the difference of the two kernels. -/
theorem kernel_eq_sub (erfc : ℂ → ℂ) (k : ℂ) (E : ℝ) (phase : ℂ) (d : Vec3 ℝ) :
    phase * kernel erfc k E √(FreeSpace.lengthSquare d) =
      FreeSpace.kernel k phase d - ShortRange.kernel erfc k E phase d := by
  unfold kernel FreeSpace.kernel ShortRange.kernel
  ring

/-- Away from the source the program takes it from there. -/
theorem value_difference [SpecialFunctions ℂ] {erfc : ℂ → ℂ} (error : IsErfc erfc)
    (scaled : Scales erfc) (k : ℂ) {E : ℝ} (positive : 0 < E) (phase : ℂ) {d : Vec3 ℝ}
    (apart : 1e-6 < √(FreeSpace.lengthSquare d)) : (difference k E ⟨d, phase⟩).value =
      phase * kernel erfc k E √(FreeSpace.lengthSquare d) := by
  have beyond : 1e-8 < √(FreeSpace.lengthSquare d) := lt_trans (by norm_num) apart
  rw [kernel_eq_sub, FreeSpace.kernel_eq_value k phase beyond,
    ShortRange.kernel_eq_value error scaled k positive phase apart]
  rfl

/-! ## The wave that a Gaussian cuts off -/

section
variable (erf : ℂ → ℂ) (k : ℂ) (E : ℝ)

/-- A wave that is cut off smoothly on one side of the source. -/
noncomputable def cutWave (r : ℂ) : ℂ := exp (I * k * r) * (1 + erf (E * r + I * k / (2 * E)))

/-- The Gaussian that the cut consists of. -/
noncomputable def bell (r : ℂ) : ℂ :=
  (2 * E / √Real.pi : ℝ) * exp (k ^ 2 / (4 * E ^ 2) - E ^ 2 * r ^ 2)

theorem bell_neg (r : ℂ) : bell k E (-r) = bell k E r := by
  rw [bell, bell, neg_sq]

/-- What the derivative of the Gaussian makes of a polynomial in front of it. -/
noncomputable def bellStep (P : ℂ[X]) : ℂ[X] := derivative P - C (2 * (E : ℂ) ^ 2) * X * P

/-- The wave without its mirror image, followed by the derivatives. Every second one brings it back,
with a part that the Gaussian drives. -/
noncomputable def oddWave : ℕ → ℂ → ℂ
  | 0, r => cutWave erf k E r - cutWave erf k E (-r)
  | 1, r => I * k * (cutWave erf k E r + cutWave erf k E (-r)) + 2 * bell k E r
  | n + 2, r => -k ^ 2 * oddWave n r - 4 * E ^ 2 * (((bellStep E)^[n] X).eval r * bell k E r)

theorem oddWave_neg (r : ℂ) : oddWave erf k E 0 (-r) = -oddWave erf k E 0 r := by
  simp only [oddWave, neg_neg]
  ring

theorem oddWave_one_origin : oddWave erf k E 1 0 =
    2 * (I * k * (1 + erf (I * k / (2 * E))) + bell k E 0) := by
  simp only [oddWave, cutWave, neg_zero, mul_zero, Complex.exp_zero, zero_add, one_mul]
  ring

theorem oddWave_three_origin : oddWave erf k E 3 0 =
    -k ^ 2 * oddWave erf k E 1 0 - 4 * E ^ 2 * bell k E 0 := by
  have front : ((bellStep E)^[1] X).eval 0 = 1 := by
    simp [bellStep]
  change -k ^ 2 * oddWave erf k E 1 0 - 4 * E ^ 2 * (((bellStep E)^[1] X).eval 0 * bell k E 0) = _
  rw [front, one_mul]

theorem oddWave_five_origin : oddWave erf k E 5 0 =
    -k ^ 2 * oddWave erf k E 3 0 + 24 * E ^ 4 * bell k E 0 := by
  have front : ((bellStep E)^[3] X).eval 0 = -6 * E ^ 2 := by
    simp [bellStep]
    ring
  change -k ^ 2 * oddWave erf k E 3 0 - 4 * E ^ 2 * (((bellStep E)^[3] X).eval 0 * bell k E 0) = _
  rw [front]
  ring

end

section
variable {erf : ℂ → ℂ} (error : IsErf erf) (k : ℂ) {E : ℝ} (positive : 0 < E)

theorem hasDerivAt_bell (r : ℂ) : HasDerivAt (bell k E) (-2 * E ^ 2 * r * bell k E r) r := by
  have identity : HasDerivAt (fun r : ℂ => r) 1 r := hasDerivAt_id r
  have exponent := ((identity.fun_pow 2).const_mul ((E : ℂ) ^ 2)).const_sub (k ^ 2 / (4 * E ^ 2))
  apply (exponent.cexp.const_mul ((2 * E / √Real.pi : ℝ) : ℂ)).congr_deriv
  unfold bell
  push_cast
  ring

theorem hasDerivAt_mul_bell (P : ℂ[X]) (r : ℂ) :
    HasDerivAt (fun r => P.eval r * bell k E r) ((bellStep E P).eval r * bell k E r) r := by
  apply ((P.hasDerivAt r).fun_mul (hasDerivAt_bell k r)).congr_deriv
  simp only [bellStep, eval_sub, eval_mul, eval_C, eval_X]
  ring

include error

/-- Up to the factor in front, the long-range half is the odd wave over the distance. -/
theorem kernel_eq_oddWave {erfc : ℂ → ℂ} (complement : ∀ w, erfc w = 1 - erf w) (r : ℂ) :
    kernel erfc k E r = oddWave erf k E 0 r / (8 * Real.pi) / r := by
  have mirrored : erf (E * -r + I * k / (2 * E)) = -erf (E * r - I * k / (2 * E)) := by
    rw [← error.odd]
    congr 1
    ring
  simp only [kernel, oddWave, cutWave, complement, mirrored]
  ring_nf

include positive

theorem hasDerivAt_cutWave (r : ℂ) :
    HasDerivAt (cutWave erf k E) (I * k * cutWave erf k E r + bell k E r) r := by
  have nonzero : (E : ℂ) ≠ 0 := by exact_mod_cast positive.ne'
  have identity : HasDerivAt (fun r : ℂ => r) 1 r := hasDerivAt_id r
  have argument := (identity.const_mul (E : ℂ)).add_const (I * k / (2 * E))
  have cut := ((error.hasDerivAt _).comp r argument).const_add 1
  have exponents : exp (I * k * r) * exp (-(E * r + I * k / (2 * E)) ^ 2) =
      exp (k ^ 2 / (4 * E ^ 2) - E ^ 2 * r ^ 2) := by
    rw [← Complex.exp_add]
    congr 1
    field_simp
    linear_combination -4 * k ^ 2 * Complex.I_sq
  apply (((identity.const_mul (I * k)).cexp).fun_mul cut).congr_deriv
  unfold cutWave bell
  rw [← exponents]
  push_cast
  simp only [Function.comp_apply]
  ring

theorem hasDerivAt_oddWave (n : ℕ) (r : ℂ) :
    HasDerivAt (oddWave erf k E n) (oddWave erf k E (n + 1) r) r := by
  have wave := hasDerivAt_cutWave error k positive
  have mirrored : HasDerivAt (fun r => cutWave erf k E (-r))
      (-(I * k * cutWave erf k E (-r) + bell k E r)) r := by
    apply ((wave (-r)).comp r (hasDerivAt_neg r)).congr_deriv
    rw [bell_neg]
    ring
  -- Two derivatives bring the odd wave back, so the induction takes two steps at a time.
  induction n using Nat.twoStepInduction with
  | zero =>
    apply ((wave r).fun_sub mirrored).congr_deriv
    simp only [oddWave]
    ring
  | one =>
    apply ((((wave r).fun_add mirrored).const_mul (I * k)).fun_add
      ((hasDerivAt_bell k r).const_mul 2)).congr_deriv
    simp only [oddWave, Function.iterate_zero, id_eq, eval_X]
    linear_combination k ^ 2 * (cutWave erf k E r - cutWave erf k E (-r)) * Complex.I_sq
  | more n before _ =>
    apply ((before.const_mul (-k ^ 2)).fun_sub
      ((hasDerivAt_mul_bell k ((bellStep E)^[n] X) r).const_mul (4 * (E : ℂ) ^ 2))).congr_deriv
    rw [← Function.iterate_succ_apply' (bellStep E)]
    rfl

/-- The long-range half extends over its source. -/
theorem exists_extension {erfc : ℂ → ℂ} (complement : ∀ w, erfc w = 1 - erf w) :
    ∃ F p, ExtendsEvenly (kernel erfc k E) F p ∧
      ∀ n, p.coeff n = oddWave erf k E (n + 1) 0 / (8 * Real.pi) / (n + 1).factorial := by
  have ladder : ∀ n r, HasDerivAt (fun r => oddWave erf k E n r / (8 * Real.pi))
      (oddWave erf k E (n + 1) r / (8 * Real.pi)) r :=
    fun n r => (hasDerivAt_oddWave error k positive n r).div_const _
  have odd : ∀ r, oddWave erf k E 0 (-r) / (8 * Real.pi) =
      -(oddWave erf k E 0 r / (8 * Real.pi)) := by
    intro r
    rw [oddWave_neg, neg_div]
  obtain ⟨F, p, extension, coefficients⟩ :=
    ExtendsEvenly.exists_of_odd (fun r => (ladder 0 r).differentiableAt) odd
  refine ⟨F, p, ⟨extension.entire, extension.even, ?_, extension.expansion⟩, ?_⟩
  · intro r apart
    rw [extension.agrees r apart, kernel_eq_oddWave error k complement]
  · intro n
    rw [coefficients, iteratedDeriv_eq_of_ladder ladder]

end

section
variable [SpecialFunctions ℂ] (k : ℂ) {E : ℝ}

/-- The program's coefficients are those of the odd wave over the distance. -/
theorem series_eq_oddWave (positive : 0 < E) :
    let coefficient (n : ℕ) := oddWave SpecialFunctions.erf k E n 0 / (8 * Real.pi) / n.factorial
    series k E = ⟨coefficient 1, coefficient 3, coefficient 5⟩ := by
  have nonzero : (E : ℂ) ≠ 0 := by exact_mod_cast positive.ne'
  have pi_nonzero : (Real.pi : ℂ) ≠ 0 := by exact_mod_cast Real.pi_pos.ne'
  have root_nonzero : (√Real.pi : ℂ) ≠ 0 := by
    exact_mod_cast (Real.sqrt_pos.mpr Real.pi_pos).ne'
  have half : (⟨0.0, 0.5⟩ : ℂ) = I / 2 := by
    apply Complex.ext <;> norm_num
  have shift : I / 2 * k / E = I * k / (2 * E) := by
    field_simp
  have quarter : ((0.25 : ℝ) : ℂ) * (k * k) / ((E * E : ℝ) : ℂ) = k ^ 2 / (4 * E ^ 2) := by
    norm_num
    field_simp
  intro coefficient
  simp only [series, imaginaryUnit_exact, ofReal_exact, ofParts_exact, cexp_exact, half, shift,
    quarter, piThreeHalves, pi_exact, sqrt_exact]
  simp only [coefficient, oddWave_one_origin, oddWave_three_origin, oddWave_five_origin, bell]
  norm_num [Nat.factorial]
  generalize exp (k ^ 2 / (4 * E ^ 2)) = e
  generalize SpecialFunctions.erf (I * k / (2 * E)) = w
  refine ⟨?_, ?_, ?_⟩ <;>
  · field_simp
    ring

end

/-! ## The slots of the series -/

/-- The series in the square of the distance, and what is left of it after one, two and three
derivatives that are each divided by the distance. -/
noncomputable def Series.rungs (s : Series ℂ) : ℕ → ℝ → ℂ
  | 0, t => s.c0 + s.c2 * t + s.c4 * t ^ 2
  | 1, t => 2 * s.c2 + 4 * s.c4 * t
  | 2, _ => 8 * s.c4
  | _, _ => 0

theorem Series.hasDerivAt_rungs (s : Series ℂ) {i : ℕ} (below : i < 3) (t : ℝ) :
    HasDerivAt (s.rungs i) (s.rungs (i + 1) t / 2) t := by
  have identity : HasDerivAt (fun t : ℝ => (t : ℂ)) 1 t := Complex.ofRealCLM.hasDerivAt
  have step : i = 0 ∨ i = 1 ∨ i = 2 := by omega
  obtain rfl | rfl | rfl := step
  · apply (((identity.const_mul s.c2).const_add s.c0).fun_add
      ((identity.fun_pow 2).const_mul s.c4)).congr_deriv
    simp only [rungs]
    push_cast
    ring
  · apply ((identity.const_mul (4 * s.c4)).const_add (2 * s.c2)).congr_deriv
    simp only [rungs]
    ring
  · apply (hasDerivAt_const t (8 * s.c4)).congr_deriv
    simp only [rungs, zero_div]

section
variable [SpecialFunctions ℂ] (k : ℂ) (E : ℝ) (phase : ℂ) (d : Vec3 ℝ)

theorem smallTerm_eq_radial : smallTerm k E ⟨d, phase⟩ =
    (Slots.radial (fun i r => (series k E).rungs i (r ^ 2)) d).map (phase * ·) := by
  have square : √(FreeSpace.lengthSquare d) ^ 2 = FreeSpace.lengthSquare d :=
    Real.sq_sqrt (Slots.lengthSquare_nonneg d)
  have two : (2.0 : ℝ) = 2 := by norm_num
  have four : (4.0 : ℝ) = 4 := by norm_num
  have eight : (8.0 : ℝ) = 8 := by norm_num
  simp only [smallTerm, Slots.radial, Slots.map, square, Series.rungs, ofReal_exact, zeroC_exact,
    two, four, eight]
  push_cast
  congr 1 <;> ring

/-- The slots of the series derive from its value, at the source too. -/
theorem deriveAt_smallTerm : Slots.DeriveAt (fun d => smallTerm k E ⟨d, phase⟩) d := by
  simp only [smallTerm_eq_radial]
  apply Slots.DeriveAt.map
  apply Slots.DeriveAt.radial_sq
  intro i below
  exact (series k E).hasDerivAt_rungs below _

end

/-- The coefficients of the series are the first ones of the function that extends the long-range
half over its source, so that what they leave of it is of the sixth order in the distance. The slots
of the series are its value with the partial derivatives. -/
theorem smallTerm_expansion [SpecialFunctions ℂ] {erfc : ℂ → ℂ} (error : IsErf erf)
    (complement : ∀ w, erfc w = 1 - erf w) (k : ℂ) {E : ℝ} (positive : 0 < E) :
    (∃ F p, ExtendsEvenly (kernel erfc k E) F p ∧ p.coeff 0 = (series k E).c0 ∧
      p.coeff 2 = (series k E).c2 ∧ p.coeff 4 = (series k E).c4) ∧
    (fun x : EuclideanSpace ℝ (Fin 3) =>
      kernel erfc k E ‖x‖ - (smallTerm k E ⟨entries x, 1⟩).value) =O[𝓝[≠] 0]
        (fun x => ‖x‖ ^ 6) ∧
    ∀ phase d,
      smallTerm k E ⟨d, phase⟩ = Slots.partials (fun d => (smallTerm k E ⟨d, phase⟩).value) d ∧
      Slots.DeriveAt (fun d => smallTerm k E ⟨d, phase⟩) d := by
  obtain ⟨F, p, extension, coefficients⟩ := exists_extension error k positive complement
  have c0 : p.coeff 0 = (series k E).c0 := by rw [coefficients, series_eq_oddWave k positive]
  have c2 : p.coeff 2 = (series k E).c2 := by rw [coefficients, series_eq_oddWave k positive]
  have c4 : p.coeff 4 = (series k E).c4 := by rw [coefficients, series_eq_oddWave k positive]
  constructor
  · exact ⟨F, p, extension, c0, c2, c4⟩
  constructor
  · have order := extension.isBigO_sub.comp_tendsto tendsto_distance
    rw [c0, c2, c4] at order
    apply order.congr
    · intro x
      have square : FreeSpace.lengthSquare (entries x) = ‖x‖ ^ 2 := by
        rw [← sqrt_lengthSquare, Real.sq_sqrt (Slots.lengthSquare_nonneg _)]
      simp only [Function.comp_apply, smallTerm, Slots.map, ofReal_exact, square]
      push_cast
      ring
    · intro x
      simp only [Function.comp_apply, Complex.norm_real, norm_norm]
  · intro phase d
    have derive := deriveAt_smallTerm k E phase
    exact ⟨Slots.eq_partials Slots.isRegion_everywhere (fun d _ => derive d) (fun _ _ => rfl) d
      trivial, derive d⟩

/-- A wavenumber and a splitting parameter of one. -/
theorem smallTerm_expansion_unit :
    IsErf (erf : ℂ → ℂ) ∧ (∀ w, exactErfc w = 1 - erf w) ∧ (0 : ℝ) < 1 ∧
      (fun x : EuclideanSpace ℝ (Fin 3) =>
        kernel exactErfc 1 1 ‖x‖ - (smallTerm 1 (1 : ℝ) ⟨entries x, 1⟩).value) =O[𝓝[≠] 0]
          (fun x => ‖x‖ ^ 6) ∧
      Slots.DeriveAt (fun d => smallTerm 1 (1 : ℝ) ⟨d, 1⟩) ⟨0, 0, 0⟩ := by
  have error := isErf_of_isErfc isErfc_exactErfc
  have complement : ∀ w : ℂ, exactErfc w = 1 - erf w := fun w => (sub_sub_cancel 1 _).symm
  have positive : (0 : ℝ) < 1 := one_pos
  obtain ⟨-, order, derive⟩ := smallTerm_expansion error complement 1 positive
  exact ⟨error, complement, positive, order, (derive 1 ⟨0, 0, 0⟩).2⟩

end LongRange
end LatticeGreen
