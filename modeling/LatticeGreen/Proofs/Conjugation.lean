import LatticeGreen.Proofs.ConjugatedKernels

/-!
# Conjugation

An evaluation for the wavenumber mirrored in the imaginary axis and for the inverted Bloch vector
has at every source the conjugate of the contribution that the evaluation itself has there, and at
every order the conjugate of what the evaluation has at the opposite order. Conjugation changes no
size, so both stop at the same shells. An evanescent wave without a Bloch phase is its own
conjugate, and its values are real.
-/
namespace LatticeGreen
open Attempt
open scoped ComplexConjugate

/-! ## Both sums -/

/-- What a nearby sum depends on, for the wavenumber mirrored in the imaginary axis and the inverted
Bloch vector. -/
noncomputable def Nearby.conjugate (near : Nearby ℝ ℂ) : Nearby ℝ ℂ :=
  { near with wavenumber := -conj near.wavenumber, bloch := -near.bloch }

namespace Nearby
variable (near : Nearby ℝ ℂ)

/-- Every source has the conjugate phase. -/
theorem source_conjugate (cell : Cell) :
    near.conjugate.source cell = ⟨near.displacement cell, conj (near.phase cell)⟩ := by
  have angle : (near.latticePoint cell).dot (-near.bloch) =
      -(near.latticePoint cell).dot near.bloch := by
    simp only [Vec2.dot, Vec2.x_neg, Vec2.y_neg]
    ring
  have inverted : near.conjugate.phase cell = conj (near.phase cell) := by
    change Complex.exp (imaginaryUnit * ofReal ((near.latticePoint cell).dot (-near.bloch))) =
      conj (Complex.exp (imaginaryUnit * ofReal ((near.latticePoint cell).dot near.bloch)))
    rw [angle, ← Complex.exp_conj, map_mul, imaginaryUnit_exact, ofReal_exact, ofReal_exact,
      Complex.conj_I, Complex.conj_ofReal, Complex.ofReal_neg, mul_neg, neg_mul]
  unfold source
  rw [inverted]
  rfl

variable [SpecialFunctions ℂ]

theorem isRenamed_conjugate (special : Conjugates) :
    near.IsRenamed Slots.conjugate (Cell.Renaming.same near.basis.dimension) near.conjugate := by
  refine isRenamed_of_mapped Slots.symmetry_conjugate rfl rfl fun cell => ?_
  have source : near.conjugate.source ((Cell.Renaming.same near.basis.dimension) cell) =
    ⟨near.displacement cell, conj (near.phase cell)⟩ := near.source_conjugate cell
  rw [source]
  exact Source.isMapped_conj special near.wavenumber near.splitting _ _

end Nearby

namespace Distant
variable [SpecialFunctions ℂ] (special : Conjugates) (near : Nearby ℝ ℂ) (r : Reciprocal ℝ)
include special

/-- The opposite order has the conjugate term, and grazes if the order itself does. -/
theorem order_conjugate (wave : near.wavenumber.im ≠ 0) (nonnegative : 0 ≤ r.rho) (cell : Cell) :
    (near.conjugate.distant r).order (-cell) =
      ((near.distant r).order cell).map id (Slots.conjugate <$> ·) := by
  have shifted : (near.conjugate.distant r).shifted (-cell) = -(near.distant r).shifted cell :=
    shifted_invert near r cell
  have along : (near.conjugate.distant r).along (-cell) = -(near.distant r).along cell :=
    along_invert near r cell
  obtain ⟨point, k, bloch, basis, eta⟩ := near
  cases basis with
  | line a =>
    change (LineOrder.isSingular (-conj k) _, LineOrder.term (-conj k) r.rho eta point _) = _
    rw [along, LineOrder.isSingular_conj, LineOrder.term_conj special wave nonnegative]
    rfl
  | plane a1 a2 =>
    change (grazes (-conj k) (modulus (PlaneOrder.propagation (-conj k) _)),
      pure (PlaneOrder.term (-conj k) eta point _)) = _
    rw [shifted, PlaneOrder.term_conj special wave, PlaneOrder.propagation_neg,
      PlaneOrder.propagation_conj wave]
    have size : ∀ p, grazes (-conj k) (modulus (conj (PlaneOrder.propagation k p))) =
        grazes k (modulus (PlaneOrder.propagation k p)) := by
      intro p
      simp only [grazes, modulus_exact, norm_neg_conj, RCLike.norm_conj]
    rw [size]
    rfl

theorem isRenamed_conjugate (wave : near.wavenumber.im ≠ 0) (nonnegative : 0 ≤ r.rho) :
    (near.distant r).IsRenamed Slots.conjugate (Cell.Renaming.opposite near.basis.dimension)
      (near.conjugate.distant r) :=
  isRenamed_of_order rfl rfl rfl (order_conjugate special near r wave nonnegative)

end Distant

/-! ## Evaluations -/

/-- The wavenumber has a part in the splitting parameter by its size only. -/
theorem Reciprocal.construct_conj (basis : Basis ℝ) (k : ℂ) (point : Vec3 ℝ) :
    construct basis (-conj k) point = construct basis k point := by
  have size : modulus (-conj k) = modulus k := norm_neg_conj k
  cases basis with
  | line a =>
    change ofLine a (-conj k) point = ofLine a k point
    unfold ofLine
    rw [size]
  | plane a1 a2 =>
    change ofPlane a1 a2 (-conj k) = ofPlane a1 a2 k
    unfold ofPlane
    rw [size]

theorem Lattice.reciprocal_conj (lattice : Lattice ℝ) (k : ℂ) (point : Vec3 ℝ) :
    lattice.reciprocal (-conj k) point = lattice.reciprocal k point := by
  unfold reciprocal
  refine bind_congr fun basis => ?_
  rw [Reciprocal.construct_conj]

theorem Reciprocal.rho_nonneg {basis : Basis ℝ} {k : ℂ} {point : Vec3 ℝ} {r : Reciprocal ℝ}
    (built : construct basis k point = .ok r) : 0 ≤ r.rho := by
  have spans := spans_of_construct built
  cases basis with
  | line a =>
    obtain ⟨r', built', distance, -⟩ := ofLine_of_spans spans k point
    obtain rfl := Except.ok.inj (built.symm.trans built')
    rw [distance]
    exact Real.sqrt_nonneg _
  | plane a1 a2 =>
    change ofPlane a1 a2 k = _ at built
    unfold ofPlane at built
    dsimp only at built
    split at built
    · cases built
    · rw [← Except.ok.inj built]
      norm_num

theorem Lattice.rho_nonneg {lattice : Lattice ℝ} {k : ℂ} {point : Vec3 ℝ} {r : Reciprocal ℝ}
    (found : lattice.reciprocal k point = .ok r) : 0 ≤ r.rho := by
  obtain ⟨basis, -, found⟩ := exists_of_bind_eq_ok found
  cases built : Reciprocal.construct basis k point with
  | error cause =>
    rw [built] at found
    cases found
  | ok r' =>
    rw [built] at found
    cases found
    exact Reciprocal.rho_nonneg built

/-- A row that is its own conjugate is real. -/
theorem Slots.im_eq_zero_of_conjugate {s : Slots ℂ} (own : s.conjugate = s) :
    ∀ value ∈ s.toList, value.im = 0 := by
  have listed : s.toList.map conj = s.toList.map id := by
    rw [← Slots.toList_map, List.map_id]
    exact congrArg Slots.toList own
  exact fun value among => Complex.conj_eq_iff_im.mp (List.map_inj_left.mp listed value among)

/-- An imaginary wavenumber lies on the mirror. -/
theorem neg_conj_of_re_eq_zero {k : ℂ} (imaginary : k.re = 0) : -conj k = k := by
  apply Complex.ext
  · rw [Complex.neg_re, Complex.conj_re, imaginary, neg_zero]
  · rw [Complex.neg_im, Complex.conj_im, neg_neg]

theorem RealArray.map_neg_of_zero {a : RealArray ℝ} (none : ∀ x ∈ a.entries, x = 0) :
    a.map (- ·) = a := by
  obtain ⟨shape, entries, size⟩ := a
  have same : entries.map (- ·) = entries := by
    rw [List.map_congr_left (g := id), List.map_id]
    intro x among
    rw [none x among, neg_zero, id]
  simp only [map, same]

namespace PeriodicGreen

section
variable [SpecialFunctions ℂ] (special : Conjugates)
include special

/-- The first pair of sums of the conjugate wave. -/
theorem trial_conjugate (green : PeriodicGreen ℝ) (first : 0 ≤ green.convergence.firstRound)
    (near : Nearby ℝ ℂ) (wave : near.wavenumber.im ≠ 0) {r : Reciprocal ℝ}
    (nonnegative : 0 ≤ r.rho) (retried : Bool) :
    green.trial near.conjugate r retried =
      (fun result => { result.mapSlots Slots.conjugate with bloch := -near.bloch }) <$>
        green.trial near r retried :=
  green.trial_renamed first Slots.symmetry_conjugate (near.isRenamed_conjugate special)
    (Distant.isRenamed_conjugate special near r wave nonnegative) retried

/-- An evaluation that ends without a second pair of sums is conjugated. -/
theorem EndsAtOnce.conjugate {green : PeriodicGreen ℝ} (first : 0 ≤ green.convergence.firstRound)
    {point bloch : RealArray ℝ} {k : ℂ} (complex : k.im ≠ 0) {result : Evaluation ℝ ℂ}
    (ends : green.EndsAtOnce point k bloch result) :
    green.EndsAtOnce point (-conj k) (bloch.map (- ·))
      { result.mapSlots Slots.conjugate with bloch := -result.bloch } := by
  cases ends with
  | waveless p b place phase wave =>
    rw [zeroC_exact, beq_iff_eq] at wave
    rw [wave] at complex
    exact absurd rfl complex
  | regular p b basis r result place phase wave vectors reciprocal tried unbroken =>
    have wave' : (-conj k == (zeroC : ℂ)) = false := by
      rw [zeroC_exact, beq_eq_false_iff_ne, neg_ne_zero, map_ne_zero]
      rintro rfl
      exact complex rfl
    have conjugate : green.lattice.reciprocal (-conj k) p = .ok r := by
      rw [Lattice.reciprocal_conj, reciprocal]
    have conjugated := trial_conjugate special green first (green.nearFor p k b basis r)
      complex (Lattice.rho_nonneg reciprocal) false
    rw [tried] at conjugated
    rw [bloch_trial tried]
    exact .regular p (-b) basis r _ place (readBloch_neg phase) wave' vectors conjugate conjugated
      unbroken

/-- For the wavenumber mirrored in the imaginary axis and the inverted Bloch vector, an evaluation
with a loss or a gain that is not retried ends alike, with the same counts and verdicts of both sums
and all slots conjugated. An evanescent wave without a Bloch phase is never retried and has real
values. Arguments that are accepted have a result. -/
theorem evaluate_conjugated (green : PeriodicGreen ℝ) (first : 0 ≤ green.convergence.firstRound)
    (point : RealArray ℝ) {k : ℂ} (complex : k.im ≠ 0) (bloch : RealArray ℝ) :
    (∀ result events, green.evaluate point k bloch = done result events →
      result.retried = false →
        ∃ later, green.evaluate point (-conj k) (bloch.map (- ·)) =
          done { result.mapSlots Slots.conjugate with bloch := -result.bloch } later) ∧
      (k.re = 0 → (∀ x ∈ bloch.entries, x = 0) → ∀ result events,
        green.evaluate point k bloch = done result events →
          result.retried = false ∧ ∀ value ∈ result.values.toList, value.im = 0) ∧
      ∀ reading, green.Accepts point k bloch reading →
        ∃ result events, green.evaluate point k bloch = done result events := by
  have conjugated : ∀ result events, green.evaluate point k bloch = done result events →
      result.retried = false → green.EndsAtOnce point (-conj k) (bloch.map (- ·))
        { result.mapSlots Slots.conjugate with bloch := -result.bloch } :=
    fun result events ran once => (endsAtOnce_of_done ran once).conjugate special first complex
  refine ⟨fun result events ran once => (conjugated result events ran once).exists_done,
    fun imaginary unphased result events ran => ?_, fun reading accepted => ?_⟩
  · have answered : (green.evaluate point k bloch).answer = .ok result :=
      answer_eq_ok_iff.mpr ⟨events, ran⟩
    have damped : |k.re| ≤ |k.im| := by
      rw [imaginary, abs_zero]
      exact abs_nonneg _
    have once : result.retried = false := once_of_damped damped answered
    -- Both arguments stay as they are, so the evaluation is compared with itself.
    obtain ⟨own, -⟩ := endsAtOnce_iff.mp (conjugated result events ran once)
    rw [neg_conj_of_re_eq_zero imaginary, RealArray.map_neg_of_zero unphased, answered] at own
    have values : result.values = result.values.conjugate :=
      congrArg Evaluation.values (Except.ok.inj own)
    exact ⟨once, Slots.im_eq_zero_of_conjugate values.symm⟩
  · obtain ⟨result, _, _, noted, ran, _⟩ := evaluate_course accepted
    exact ⟨result, noted, ran⟩

end

/-- A damped wave with a Bloch phase over the unit line and an evanescent one without, both without
the innermost cells. -/
theorem evaluate_conjugated_damped :
    (∃ result : Evaluation ℝ ℂ, ∃ events later,
      outerUnitLine.evaluate (.ofList [0.1, 0.2, 0.3]) (⟨1, 1⟩ : ℂ) (.ofList [1]) =
        done result events ∧
      outerUnitLine.evaluate (.ofList [0.1, 0.2, 0.3]) (⟨-1, 1⟩ : ℂ) (.ofList [-1]) =
        done { result.mapSlots Slots.conjugate with bloch := -result.bloch } later) ∧
    ∃ result : Evaluation ℝ ℂ, ∃ events,
      outerUnitLine.evaluate (.ofList [0.1, 0.2, 0.3]) Complex.I (.ofList [0]) =
        done result events ∧ ∀ value ∈ result.values.toList, value.im = 0 := by
  constructor
  · have complex : (⟨1, 1⟩ : ℂ).im ≠ 0 := one_ne_zero
    have wave : (⟨1, 1⟩ : ℂ) ≠ 0 := fun none => complex (congrArg Complex.im none)
    have mirrored : -conj (⟨1, 1⟩ : ℂ) = ⟨-1, 1⟩ := by
      apply Complex.ext
      · rfl
      · exact neg_neg 1
    obtain ⟨r, accepted, -⟩ := exists_accepts_outerUnitLine wave 1
    obtain ⟨conjugated, -, ends⟩ := evaluate_conjugated conjugates_exact outerUnitLine (by decide)
      (.ofList [0.1, 0.2, 0.3]) complex (.ofList [1])
    obtain ⟨result, events, ran⟩ := ends _ accepted
    have once : result.retried = false := once_of_damped le_rfl (answer_eq_ok_iff.mpr ⟨events, ran⟩)
    rw [mirrored] at conjugated
    obtain ⟨later, ran'⟩ := conjugated result events ran once
    exact ⟨result, events, later, ran, ran'⟩
  · have complex : Complex.I.im ≠ 0 := by
      rw [Complex.I_im]
      exact one_ne_zero
    have unphased : ∀ x ∈ (RealArray.ofList [(0 : ℝ)]).entries, x = 0 :=
      fun _ => List.mem_singleton.mp
    obtain ⟨r, accepted, -⟩ := exists_accepts_outerUnitLine Complex.I_ne_zero 0
    obtain ⟨-, real, ends⟩ := evaluate_conjugated conjugates_exact outerUnitLine (by decide)
      (.ofList [0.1, 0.2, 0.3]) complex (.ofList [0])
    obtain ⟨result, events, ran⟩ := ends _ accepted
    exact ⟨result, events, ran, (real Complex.I_re unphased result events ran).2⟩

end PeriodicGreen

end LatticeGreen
