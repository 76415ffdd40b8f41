import LatticeGreen.Proofs.Inversion

/-!
# Kernels of the conjugate wave

Every kernel is put together from functions that commute with conjugation, off their cuts. With the
wavenumber mirrored in the imaginary axis, `i k` becomes its conjugate and `k ^ 2` too, so the
kernels of the sources and those of the orders become theirs. No order of a wave with a loss or a
gain comes near a cut: the square of its transverse wavenumber stays off the negative axis.
-/
namespace LatticeGreen
open Complex (I slitPlane)
open scoped ComplexConjugate

/-- The special functions commute with conjugation: the error functions everywhere, the Bessel
functions off their cut along the negative axis. -/
structure Conjugates [SpecialFunctions ℂ] : Prop where
  erfcx : ∀ w : ℂ, erfcx (conj w) = conj (SpecialFunctions.erfcx w)
  erf : ∀ w : ℂ, erf (conj w) = conj (SpecialFunctions.erf w)
  besselK : ∀ z ∈ slitPlane,
    besselK (conj z) = (SpecialFunctions.besselK z).map conj (Prod.map conj conj)

/-- The conditions on the complementary error function are those on its conjugate. -/
theorem IsErfc.conj_conj {erfc : ℂ → ℂ} (error : IsErfc erfc) :
    IsErfc fun w => conj (erfc (conj w)) where
  zero := by rw [map_zero, error.zero, map_one]
  hasDerivAt w := by
    have mirrored := (error.hasDerivAt (conj w)).conj_conj
    rw [RCLike.conj_conj] at mirrored
    refine mirrored.congr_deriv ?_
    simp only [map_mul, map_neg, Complex.conj_ofReal, ← Complex.exp_conj, map_pow,
      RCLike.conj_conj]

/-- There is one complementary error function. -/
theorem IsErfc.unique {erfc erfc' : ℂ → ℂ} (error : IsErfc erfc) (error' : IsErfc erfc') :
    erfc = erfc' := by
  funext w
  have flat : ∀ w, HasDerivAt (fun w => erfc w - erfc' w) 0 w := by
    intro w
    refine ((error.hasDerivAt w).sub (error'.hasDerivAt w)).congr_deriv ?_
    exact sub_self _
  have constant := is_const_of_deriv_eq_zero (fun w => (flat w).differentiableAt)
    (fun w => (flat w).deriv) w 0
  rw [error.zero, error'.zero, sub_self] at constant
  exact sub_eq_zero.mp constant

theorem exactErfc_conj (w : ℂ) : exactErfc (conj w) = conj (exactErfc w) := by
  have own := congrFun (isErfc_exactErfc.conj_conj.unique isErfc_exactErfc) (conj w)
  rw [RCLike.conj_conj] at own
  exact own.symm

theorem conjugates_exact : Conjugates where
  erfcx w := by
    change Complex.exp (conj w ^ 2) * exactErfc (conj w) =
      conj (Complex.exp (w ^ 2) * exactErfc w)
    rw [exactErfc_conj, map_mul, ← Complex.exp_conj, map_pow]
  erf w := by
    change 1 - exactErfc (conj w) = conj (1 - exactErfc w)
    rw [exactErfc_conj, map_sub, map_one]
  besselK z _ := by
    have order : ∀ n : ℝ,
        ∫ t in Set.Ioi (0 : ℝ), Complex.exp (-conj z * Real.cosh t) * Real.cosh (n * t) =
          conj (∫ t in Set.Ioi (0 : ℝ), Complex.exp (-z * Real.cosh t) * Real.cosh (n * t)) := by
      intro n
      rw [← integral_conj]
      simp only [map_mul, map_neg, ← Complex.exp_conj, Complex.conj_ofReal]
    exact congrArg₂ Prod.mk (order 0) (congrArg₂ Prod.mk (order 1) (order 2))

/-- All slots conjugated. -/
noncomputable def Slots.conjugate (s : Slots ℂ) : Slots ℂ := s.map conj

theorem Slots.conjugate_zero : conjugate zero = zero := by
  simp only [conjugate, map, zero, replicate, zeroC_exact, map_zero]

theorem Slots.symmetry_conjugate : Slots.Symmetry Slots.conjugate where
  zero := conjugate_zero
  add s t := by
    change conjugate (zipWith (· + ·) s t) = zipWith (· + ·) (conjugate s) (conjugate t)
    simp only [conjugate, map, zipWith, map_add]
  sub s t := by
    change conjugate (zipWith (· - ·) s t) = zipWith (· - ·) (conjugate s) (conjugate t)
    simp only [conjugate, map, zipWith, map_sub]
  scale s x := by
    simp only [conjugate, Slots.scale, map, map_mul, ofReal_exact, Complex.conj_ofReal]
  modulus s := by simp only [conjugate, map, modulus_exact, RCLike.norm_conj]

/-! ## Sources -/

theorem norm_neg_conj (k : ℂ) : ‖-conj k‖ = ‖k‖ := by rw [norm_neg, RCLike.norm_conj]

theorem FreeSpace.term_conj (k : ℂ) (d : Vec3 ℝ) (phase : ℂ) :
    term (-conj k) d (conj phase) = (term k d phase).conjugate := by
  unfold term
  dsimp only
  split
  · exact Slots.conjugate_zero.symm
  · simp only [Slots.conjugate, Slots.map, imaginaryUnit_exact, ofReal_exact, cexp_exact, map_mul,
      map_div₀, map_add, map_sub, ← Complex.exp_conj, Complex.conj_I, Complex.conj_ofReal, mul_neg,
      neg_mul]

theorem conj_negatedSquare (b : ℂ) : conj (negatedSquare b) = negatedSquare (conj b) := by
  simp only [negatedSquare_exact, map_neg, map_pow]

section
variable [SpecialFunctions ℂ] (special : Conjugates)
include special

theorem conj_scaledErfc (a b : ℂ) : conj (scaledErfc a b) = scaledErfc (conj a) (conj b) := by
  unfold scaledErfc
  simp only [re_exact, Complex.conj_re, cexp_exact, ofReal_exact, ← map_neg, special.erfcx]
  split <;>
    simp only [map_mul, map_sub, map_add, ← Complex.exp_conj, conj_negatedSquare,
      Complex.conj_ofReal]

theorem ShortRange.radialParts_conj (k : ℂ) (eta r : ℝ) :
    radialParts (-conj k) eta r = ⟨conj (radialParts k eta r).both, conj (radialParts k eta r).odd,
      conj (radialParts k eta r).gauss⟩ := by
  simp only [radialParts, imaginaryUnit_exact, ofReal_exact, cexp_exact, map_mul, map_div₀, map_add,
    map_sub, map_neg, conj_scaledErfc special, ← Complex.exp_conj, Complex.conj_I,
    Complex.conj_ofReal, mul_neg, neg_mul, neg_neg]

theorem ShortRange.term_conj (k : ℂ) (eta : ℝ) (d : Vec3 ℝ) (phase : ℂ) :
    term (-conj k) eta ⟨d, conj phase⟩ = (term k eta ⟨d, phase⟩).conjugate := by
  unfold term
  dsimp only
  split
  · simp only [Slots.conjugate, Slots.map, slots, radialParts_conj special, finiteOrZero_exact,
      imaginaryUnit_exact, ofReal_exact, map_mul, map_div₀, map_add, map_sub, map_neg,
      Complex.conj_I, Complex.conj_ofReal, mul_neg, neg_mul, neg_neg]
  · exact Slots.conjugate_zero.symm

theorem LongRange.series_conj (k : ℂ) (eta : ℝ) :
    series (-conj k) eta = ⟨conj (series k eta).c0, conj (series k eta).c2,
      conj (series k eta).c4⟩ := by
  have half : (⟨0.0, 0.5⟩ : ℂ) = (0.5 : ℝ) * I := by
    apply Complex.ext <;> norm_num
  simp only [series, imaginaryUnit_exact, ofReal_exact, ofParts_exact, cexp_exact, half, map_mul,
    map_div₀, map_add, map_sub, map_neg, ← special.erf, ← Complex.exp_conj, Complex.conj_I,
    Complex.conj_ofReal, mul_neg, neg_mul, neg_neg]

theorem LongRange.smallTerm_conj (k : ℂ) (eta : ℝ) (d : Vec3 ℝ) (phase : ℂ) :
    smallTerm (-conj k) eta ⟨d, conj phase⟩ = (smallTerm k eta ⟨d, phase⟩).conjugate := by
  simp only [smallTerm, series_conj special, Slots.conjugate, Slots.map, ofReal_exact, zeroC_exact,
    map_mul, map_add, map_zero, Complex.conj_ofReal]

/-- Whether the series is used depends on the distance and on the size of the wavenumber. -/
theorem Source.isMapped_conj (k : ℂ) (eta : ℝ) (d : Vec3 ℝ) (phase : ℂ) :
    IsMapped Slots.conjugate k (-conj k) eta ⟨d, phase⟩ ⟨d, conj phase⟩ where
  small := by
    unfold LongRange.isSmall
    rw [modulus_exact, modulus_exact, norm_neg_conj]
  whole := FreeSpace.term_conj k d phase
  short := ShortRange.term_conj special k eta d phase
  series := LongRange.smallTerm_conj special k eta d phase

end

/-! ## Square roots -/

/-- The square of the transverse wavenumber becomes its conjugate. -/
theorem transverseSquare_conj (p2 : ℝ) (k : ℂ) :
    transverseSquare p2 (-conj k) = conj (transverseSquare p2 k) := by
  have square : -conj k * -conj k = conj (k * k) := by rw [neg_mul_neg, map_mul]
  unfold transverseSquare
  dsimp only
  rw [square]
  apply Complex.ext
  · rfl
  · simp only [ofParts_exact, im_exact, Complex.conj_im]

/-- With a loss or a gain no order has a transverse wavenumber that is imaginary or zero. -/
theorem transverseSquare_mem_slitPlane {p2 : ℝ} (nonnegative : 0 ≤ p2) {k : ℂ} (wave : k.im ≠ 0) :
    (transverseSquare p2 k : ℂ) ∈ slitPlane := by
  by_cases imaginary : k.re = 0
  · left
    have square : 0 < k.im * k.im := mul_self_pos.mpr wave
    change 0 < p2 - (k.re * k.re - k.im * k.im)
    rw [imaginary]
    linarith
  · right
    have product : k.re * k.im ≠ 0 := mul_ne_zero imaginary wave
    change -(k.re * k.im + k.im * k.re) ≠ 0
    rw [mul_comm k.im, neg_ne_zero, ← two_mul]
    exact mul_ne_zero two_ne_zero product

theorem csqrt_conj {z : ℂ} (off : z ∈ slitPlane) : csqrt (conj z) = conj (csqrt z : ℂ) := by
  have half : conj (1 / 2 : ℂ) = 1 / 2 := by
    rw [map_div₀, map_one, Complex.conj_ofNat]
  rw [csqrt_exact, csqrt_exact, Complex.conj_cpow _ _ (Complex.mem_slitPlane_iff_arg.mp off).1,
    half]

/-! ## Orders of a plane -/

section
variable [SpecialFunctions ℂ] (special : Conjugates)
include special

theorem PlaneFactor.factor_conj (z eta : ℝ) (q : ℂ) :
    factor z eta (conj q) = ⟨conj (factor z eta q).value, conj (factor z eta q).slope⟩ := by
  simp only [factor, profile, finiteOrZero_exact, ofReal_exact, cexp_exact, map_mul, map_div₀,
    map_add, map_sub, map_neg, conj_scaledErfc special, ← Complex.exp_conj, Complex.conj_ofReal]

omit [SpecialFunctions ℂ] special in
theorem PlaneOrder.propagation_conj {k : ℂ} (wave : k.im ≠ 0) (p : Vec2 ℝ) :
    propagation (-conj k) p = conj (propagation k p) := by
  have nonnegative : 0 ≤ p.x * p.x + p.y * p.y := Reciprocal.dot_self_nonneg p
  unfold propagation
  rw [transverseSquare_conj, csqrt_conj (transverseSquare_mem_slitPlane nonnegative wave)]

/-- The opposite order of the conjugate wave. -/
theorem PlaneOrder.term_conj {k : ℂ} (wave : k.im ≠ 0) (eta : ℝ) (point : Vec3 ℝ) (p : Vec2 ℝ) :
    term (-conj k) eta point (-p) = (term k eta point p).conjugate := by
  have angle : (-p).dot point.planar = -p.dot point.planar := by
    simp only [Vec2.dot, Vec2.x_neg, Vec2.y_neg]
    ring
  simp only [term, propagation_neg, propagation_conj wave, PlaneFactor.factor_conj special, angle,
    Slots.conjugate, Slots.map, Vec2.x_neg, Vec2.y_neg, imaginaryUnit_exact, ofReal_exact,
    cexp_exact, map_mul, map_div₀, map_neg, ← Complex.exp_conj, Complex.conj_I,
    Complex.conj_ofReal, Complex.ofReal_neg, mul_neg, neg_mul, neg_neg]

end

/-! ## The exponential integral -/

namespace ExponentialIntegral

/-- The value conjugated. -/
noncomputable def Estimate.conjugate (e : Estimate ℂ) : Estimate ℂ := ⟨conj e.value, e.steps⟩

namespace PowerSeries

noncomputable def conjugate (s : PowerSeries ℝ ℂ) : PowerSeries ℝ ℂ :=
  ⟨s.factorial, conj s.power, conj s.value, conj s.previous⟩

theorem initial_conj {z : ℂ} (off : z ∈ slitPlane) :
    initial (conj z) = (initial z : PowerSeries ℝ ℂ).conjugate := by
  have logarithm : Complex.log (conj z) = conj (Complex.log z) :=
    Complex.log_conj z (Complex.mem_slitPlane_iff_arg.mp off).1
  simp only [initial, conjugate, clog_exact, ofReal_exact, logarithm, map_sub, Complex.conj_ofReal]

theorem step_conj (z : ℂ) (n : Nat) (s : PowerSeries ℝ ℂ) :
    s.conjugate.step (conj z) n = (s.step z n).conjugate := by
  simp only [step, conjugate, ofReal_exact, map_mul, map_div₀, map_sub, map_neg,
    Complex.conj_ofReal]

theorem settled_conj (tolerance : ℝ) (s : PowerSeries ℝ ℂ) :
    s.conjugate.settled tolerance = s.settled tolerance := by
  simp only [settled, conjugate, modulus_exact, ← map_sub, RCLike.norm_conj]

theorem run_conj (tolerance : ℝ) (z : ℂ) (budget : Nat) :
    ∀ (n : Nat) (s : PowerSeries ℝ ℂ), run tolerance (conj z) budget n s.conjugate =
      (run tolerance z budget n s).map Estimate.conjugate id := by
  induction budget with
  | zero => exact fun n s => rfl
  | succ budget ih =>
    intro n s
    unfold run
    dsimp only
    rw [step_conj, settled_conj, ih]
    split
    · rfl
    · rfl

end PowerSeries

theorem series_conj (tolerance : ℝ) {z : ℂ} (off : z ∈ slitPlane) :
    series tolerance (conj z) = Estimate.conjugate <$> series tolerance z := by
  unfold series
  rw [PowerSeries.initial_conj off, PowerSeries.run_conj]
  simp only [Prod.map, id_eq, map_bind, map_pure]

namespace Lentz

noncomputable def conjugate (s : Lentz ℂ) : Lentz ℂ := ⟨conj s.value, conj s.c, conj s.d, s.streak⟩

theorem nonzero_conj (z : ℂ) : nonzero (R := ℝ) (conj z) = conj (nonzero (R := ℝ) z) := by
  have zero : (conj z == (zeroC : ℂ)) = (z == zeroC) := by
    rw [zeroC_exact, Bool.eq_iff_iff, beq_iff_eq, beq_iff_eq, map_eq_zero]
  unfold nonzero
  rw [zero]
  split
  · exact (Complex.conj_ofReal _).symm
  · rfl

theorem numerator_conj (z : ℂ) (j : Nat) :
    numerator (R := ℝ) (conj z) j = conj (numerator (R := ℝ) z j) := by
  unfold numerator
  split
  · rw [cexp_exact, cexp_exact, ← map_neg, Complex.exp_conj]
  · exact (Complex.conj_ofReal _).symm

theorem denominator_conj (z : ℂ) (j : Nat) :
    denominator (R := ℝ) (conj z) j = conj (denominator (R := ℝ) z j) := by
  unfold denominator
  split
  · rfl
  · exact (Complex.conj_ofReal _).symm

theorem step_conj (tolerance : ℝ) (z : ℂ) (j : Nat) (s : Lentz ℂ) :
    s.conjugate.step tolerance (conj z) j = (s.step tolerance z j).conjugate := by
  have one : conj ((1.0 : ℝ) : ℂ) = ((1.0 : ℝ) : ℂ) := Complex.conj_ofReal _
  have inverse : ∀ w : ℂ, ((1.0 : ℝ) : ℂ) / conj w = conj (((1.0 : ℝ) : ℂ) / w) := by
    intro w
    rw [map_div₀, one]
  have change : ∀ delta : ℂ, ‖conj delta - ((1.0 : ℝ) : ℂ)‖ = ‖delta - ((1.0 : ℝ) : ℂ)‖ := by
    intro delta
    rw [← RCLike.norm_conj (delta - _), map_sub, one]
  simp only [step, conjugate, numerator_conj, denominator_conj, ← map_div₀, ← map_add, ← map_mul,
    nonzero_conj, ofReal_exact, modulus_exact, inverse, change]

theorem run_conj (tolerance : ℝ) (z : ℂ) (budget : Nat) :
    ∀ (j : Nat) (s : Lentz ℂ), run tolerance (conj z) budget j s.conjugate =
      (run tolerance z budget j s).map Estimate.conjugate id := by
  induction budget with
  | zero => exact fun j s => rfl
  | succ budget ih =>
    intro j s
    have streak : (s.step tolerance z (j + 1)).conjugate.streak =
      (s.step tolerance z (j + 1)).streak := rfl
    unfold run
    dsimp only
    rw [step_conj, streak, ih]
    split
    · rfl
    · rfl

end Lentz

theorem continuedFraction_conj (tolerance : ℝ) (z : ℂ) :
    continuedFraction tolerance (conj z) =
      Estimate.conjugate <$> continuedFraction tolerance z := by
  have initial : (Lentz.initial (R := ℝ) : Lentz ℂ).conjugate = Lentz.initial (R := ℝ) := by
    have tiny : conj (Lentz.tiny (R := ℝ) : ℂ) = Lentz.tiny (R := ℝ) := Complex.conj_ofReal _
    simp only [Lentz.conjugate, Lentz.initial, tiny, zeroC_exact, map_zero]
  unfold continuedFraction
  rw [← initial, Lentz.run_conj, initial]
  simp only [Prod.map, id_eq, map_bind, map_pure]

namespace Asymptotic

noncomputable def conjugate (s : Asymptotic ℂ) : Asymptotic ℂ := ⟨conj s.total, conj s.term⟩

theorem step_conj (z : ℂ) (n : Nat) (s : Asymptotic ℂ) :
    s.conjugate.step (R := ℝ) (conj z) n = (s.step (R := ℝ) z n).conjugate := by
  simp only [step, conjugate, ofReal_exact, map_mul, map_div₀, map_add, Complex.conj_ofReal]

theorem settled_conj (tolerance : ℝ) (s : Asymptotic ℂ) :
    s.conjugate.settled tolerance = s.settled tolerance := by
  simp only [settled, conjugate, modulus_exact, RCLike.norm_conj]

theorem run_conj (tolerance : ℝ) (z : ℂ) (budget : Nat) :
    ∀ (n : Nat) (s : Asymptotic ℂ), run tolerance (conj z) budget n s.conjugate =
      (run tolerance z budget n s).map Estimate.conjugate id := by
  induction budget with
  | zero => exact fun n s => rfl
  | succ budget ih =>
    intro n s
    unfold run
    dsimp only
    rw [step_conj, settled_conj, ih]
    split
    · rfl
    · rfl

end Asymptotic

theorem asymptotic_conj (tolerance : ℝ) (z : ℂ) :
    asymptotic tolerance (conj z) = Estimate.conjugate <$> asymptotic tolerance z := by
  have initial : (Asymptotic.initial (R := ℝ) : Asymptotic ℂ).conjugate =
      Asymptotic.initial (R := ℝ) := by
    simp only [Asymptotic.conjugate, Asymptotic.initial, ofReal_exact, Complex.conj_ofReal]
  have nothing : (⟨zeroC, 0⟩ : Estimate ℂ).conjugate = ⟨zeroC, 0⟩ := by
    simp only [Estimate.conjugate, zeroC_exact, map_zero]
  unfold asymptotic
  rw [← initial, Asymptotic.run_conj, initial, modulus_exact, modulus_exact, RCLike.norm_conj]
  split
  · rw [map_pure, nothing]
  · simp only [Prod.map, id_eq, map_bind, map_pure, Estimate.conjugate, cexp_exact, map_mul,
      map_div₀, ← Complex.exp_conj, map_neg]

theorem nearCut_conj (z : ℂ) : nearCut (conj z) = nearCut z := by
  have angle : |(conj z).arg| = |z.arg| := by
    rw [Complex.arg_conj]
    split
    · rename_i cut
      rw [cut]
    · exact abs_neg _
  simp only [nearCut, argument_exact, abs_exact, angle]

/-- Each expansion commutes with conjugation, and so does the choice between them. -/
theorem expInt_conj {z : ℂ} (off : z ∈ slitPlane) :
    expInt (conj z) = (starRingEnd ℂ) <$> expInt z := by
  have size : modulus (conj z) = modulus z := RCLike.norm_conj z
  have value : ∀ x : Logged ℝ (Estimate ℂ),
      (do return (← Estimate.conjugate <$> x).value : Logged ℝ ℂ) =
        (starRingEnd ℂ) <$> (do return (← x).value : Logged ℝ ℂ) := by
    intro x
    rw [bind_map_left, map_bind]
    exact bind_congr fun e => (map_pure _ _).symm
  unfold expInt
  dsimp only
  rw [size, nearCut_conj, series_conj _ off, continuedFraction_conj, asymptotic_conj, value, value,
    value]
  split
  · rfl
  · split
    · split
      · rfl
      · rfl
    · rfl

end ExponentialIntegral

/-! ## Orders of a line -/

/-- The value and its derivatives conjugated. -/
noncomputable def Radial.conjugate (g : Radial ℂ) : Radial ℂ :=
  ⟨conj g.value, conj g.first, conj g.second⟩

namespace LineTransform

theorem scaledArgument_conj (kt2 : ℂ) (eta : ℝ) :
    scaledArgument (conj kt2) eta = conj (scaledArgument kt2 eta) := by
  apply Complex.ext
  · rfl
  · simp only [scaledArgument, ofParts_exact, im_exact, Complex.conj_im, neg_mul]

theorem scaledArgument_mem_slitPlane {kt2 : ℂ} (off : kt2 ∈ slitPlane) {eta : ℝ}
    (split : eta ≠ 0) : scaledArgument kt2 eta ∈ slitPlane := by
  have scale : 0 < 0.25 / (eta * eta) := div_pos (by norm_num) (mul_self_pos.mpr split)
  rcases off with right | beside
  · exact .inl (mul_pos right scale)
  · exact .inr (mul_ne_zero beside scale.ne')

namespace Partial

noncomputable def conjugate (s : Partial ℝ ℂ) : Partial ℝ ℂ :=
  ⟨conj s.order, s.weight, conj s.total, conj s.first, conj s.second, s.streak⟩

theorem step_conj (x factor : ℂ) (rho eta : ℝ) (q : Nat) (s : Partial ℝ ℂ) :
    s.conjugate.step (conj x) (conj factor) rho eta q = (s.step x factor rho eta q).conjugate := by
  have divided : ∀ (w : ℂ) (r : ℝ), conj w / (r : ℂ) = conj (w / r) := by
    intro w r
    rw [map_div₀, Complex.conj_ofReal]
  have scaled : ∀ (w : ℂ) (r : ℝ), (r : ℂ) * conj w = conj (r * w) := by
    intro w r
    rw [map_mul, Complex.conj_ofReal]
  have scaled' : ∀ (w : ℂ) (r : ℝ), conj w * (r : ℂ) = conj (w * r) := by
    intro w r
    rw [map_mul, Complex.conj_ofReal]
  simp only [step, conjugate, ofReal_exact, modulus_exact, ← map_mul, ← map_sub, ← map_add, divided,
    scaled, scaled', RCLike.norm_conj]

theorem run_conj (x factor : ℂ) (rho eta : ℝ) (budget : Nat) :
    ∀ (q : Nat) (s : Partial ℝ ℂ), run (conj x) (conj factor) rho eta budget q s.conjugate =
      (run x factor rho eta budget q s).map conjugate id := by
  induction budget with
  | zero => exact fun q s => rfl
  | succ budget ih =>
    intro q s
    have streak : (s.step x factor rho eta (q + 1)).conjugate.streak =
      (s.step x factor rho eta (q + 1)).streak := rfl
    unfold run
    dsimp only
    rw [step_conj, streak, ih]
    split
    · rfl
    · rfl

end Partial

theorem series_conj {kt2 : ℂ} (off : kt2 ∈ slitPlane) (rho : ℝ) {eta : ℝ} (split : eta ≠ 0) :
    series (conj kt2) rho eta = Radial.conjugate <$> series kt2 rho eta := by
  unfold series
  dsimp only
  rw [scaledArgument_conj,
    ExponentialIntegral.expInt_conj (scaledArgument_mem_slitPlane off split), bind_map_left,
    map_bind]
  refine bind_congr fun e1 => ?_
  have vanishes : (conj e1 == (zeroC : ℂ)) = (e1 == zeroC) := by
    rw [zeroC_exact, Bool.eq_iff_iff, beq_iff_eq, beq_iff_eq, map_eq_zero]
  have begun : Partial.initial (conj e1) = (Partial.initial e1 : Partial ℝ ℂ).conjugate := by
    simp only [Partial.initial, Partial.conjugate, zeroC_exact, map_zero]
  have factor : ∀ x : ℂ, (cexp (-conj x) : ℂ) = conj (cexp (-x) : ℂ) := by
    intro x
    rw [cexp_exact, cexp_exact, ← map_neg, Complex.exp_conj]
  rw [vanishes, begun, factor, Partial.run_conj]
  split
  · simp only [map_pure, Radial.conjugate, ofReal_exact, zeroC_exact, map_zero, map_div₀,
      Complex.conj_ofReal]
  · split
    · simp only [map_pure, Radial.conjugate, zeroC_exact, map_zero]
    · simp only [Prod.map, id_eq, map_bind, map_pure, Radial.conjugate, Partial.conjugate,
        modulus_exact, RCLike.norm_conj, ofReal_exact, map_div₀, Complex.conj_ofReal]

variable [SpecialFunctions ℂ]

theorem lineTransform_conj (special : Conjugates) {kt2 : ℂ} (off : kt2 ∈ slitPlane) {rho : ℝ}
    (positive : 0 < rho) : FreeSpace.lineTransform (conj kt2) rho =
      Radial.conjugate (FreeSpace.lineTransform kt2 rho) := by
  -- The principal root lies in the right half plane, away from the cut of the Bessel functions.
  have right : csqrt kt2 * (rho : ℂ) ∈ slitPlane := by
    left
    rw [Complex.re_mul_ofReal]
    exact mul_pos (re_csqrt_pos off) positive
  have bessel := special.besselK _ right
  rw [map_mul, Complex.conj_ofReal] at bessel
  rcases triple : besselK (csqrt kt2 * (rho : ℂ)) with ⟨k0, k1, k2⟩
  rw [triple] at bessel
  unfold FreeSpace.lineTransform FreeSpace.rootTransform
  simp only [ofReal_exact, triple, bessel, Prod.map, Radial.conjugate, csqrt_conj off, map_mul,
    map_add, map_neg, map_div₀, Complex.conj_ofReal]

/-- The transform of the opposite order of the conjugate wave. -/
theorem longRange_conj (special : Conjugates) {kt2 : ℂ} (off : kt2 ∈ slitPlane) {rho : ℝ}
    (nonnegative : 0 ≤ rho) (eta : ℝ) :
    longRange (conj kt2) rho eta = Radial.conjugate <$> longRange kt2 rho eta := by
  unfold longRange
  split
  · rename_i far
    -- On the line itself the product with the distance would not exceed the crossover.
    have apart : 0 < rho := by
      refine lt_of_le_of_ne nonnegative fun onLine => ?_
      rw [← onLine, zero_mul] at far
      norm_num [crossover] at far
    rw [map_pure, lineTransform_conj special off apart]
  · split
    · rfl
    · rename_i divided
      have split : eta ≠ 0 := by
        rintro rfl
        norm_num at divided
      rw [series_conj off rho split]
      exact liftM_map _ _

end LineTransform

namespace LineOrder

theorem isSingular_conj (k : ℂ) (kx : ℝ) : isSingular (-conj k) (-kx) = isSingular k kx := by
  rw [isSingular_neg]
  unfold isSingular transverse grazes
  rw [transverseSquare_conj]
  simp only [modulus_exact, RCLike.norm_conj, norm_neg_conj]

theorem slots_conj (kx rho y z : ℝ) (g : Radial ℂ) :
    slots (-kx) rho y z g.conjugate = (slots kx rho y z g).conjugate := by
  unfold slots Slots.conjugate Radial.conjugate
  dsimp only
  split
  · simp only [Slots.map, imaginaryUnit_exact, ofReal_exact, zeroC_exact, map_mul, map_zero,
      Complex.conj_I, Complex.conj_ofReal, Complex.ofReal_neg, mul_neg, neg_mul]
  · simp only [Slots.map, imaginaryUnit_exact, ofReal_exact, map_mul, map_sub, map_div₀,
      Complex.conj_I, Complex.conj_ofReal, Complex.ofReal_neg, mul_neg, neg_mul]

theorem phase_conj (kx x : ℝ) : (phase (-kx) x : ℂ) = conj (phase kx x) := by
  rw [phase_eq, phase_eq, ← Complex.exp_conj, map_mul, Complex.conj_I, Complex.conj_ofReal,
    neg_mul, Complex.ofReal_neg, mul_neg, neg_mul]

/-- The opposite order of the conjugate wave. -/
theorem term_conj [SpecialFunctions ℂ] (special : Conjugates) {k : ℂ} (wave : k.im ≠ 0) {rho : ℝ}
    (nonnegative : 0 ≤ rho) (eta : ℝ) (point : Vec3 ℝ) (kx : ℝ) :
    term (-conj k) rho eta point (-kx) = Slots.conjugate <$> term k rho eta point kx := by
  have off : transverse k kx ∈ slitPlane :=
    transverseSquare_mem_slitPlane (mul_self_nonneg kx) wave
  have across : transverse (-conj k) (-kx) = conj (transverse k kx) := by
    unfold transverse
    rw [neg_mul_neg, transverseSquare_conj]
  unfold term
  rw [across, LineTransform.longRange_conj special off nonnegative, bind_map_left, map_bind]
  refine bind_congr fun g => ?_
  rw [map_pure, slots_conj, phase_conj]
  simp only [Slots.conjugate, Slots.map, finiteOrZero_exact, map_mul]

end LineOrder

end LatticeGreen
