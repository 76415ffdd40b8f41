import LatticeGreen.Proofs.BasisOrientation

/-!
# Bloch vectors on a line

The sources of a line along x differ along the line only, so of a Bloch vector their phases see the
first component, and the orders of the line are shifted by that alone. The second component is
carried along, through the copy and the shift after a singular sum, up to the vector that a result
reports.
-/
namespace LatticeGreen
open Attempt

/-- The vector with another component across the line. -/
def Vec2.withAcross {R : Type} (v : Vec2 R) (c : R) : Vec2 R := ⟨v.x, c⟩

/-- The sum for a Bloch vector with another component across the line. -/
def Nearby.withAcross {R C : Type} (near : Nearby R C) (c : R) : Nearby R C :=
  { near with bloch := near.bloch.withAcross c }

/-- The sum over the orders for a Bloch vector with another component across the line. -/
def Distant.withAcross {R C : Type} (far : Distant R C) (c : R) : Distant R C :=
  { far with bloch := far.bloch.withAcross c }

/-- The result with another component across the line in the Bloch vector that it reports. -/
def Evaluation.withAcross {R C : Type} (result : Evaluation R C) (c : R) : Evaluation R C :=
  { result with bloch := result.bloch.withAcross c }

/-- A lattice of one row that has a reciprocal lattice is a line along x. -/
theorem Lattice.line_of_reciprocal {lattice : Lattice ℝ} (row : lattice.dimension = 1)
    {basis : Basis ℝ} (vectors : lattice.vectors = .ok basis) {k : ℂ} {point : Vec3 ℝ}
    {r : Reciprocal ℝ} (accepted : lattice.reciprocal k point = .ok r) :
    ∃ a, basis = .line a ∧ a.y = 0 := by
  have fits : Mirror.acrossLine.Fits basis := fits_of_reciprocal (.inr row) vectors accepted
  exact fits.resolve_left (by norm_num [Mirror.acrossLine])

/-! ## The nearby sum -/

namespace Nearby
variable {near : Nearby ℝ ℂ} {a : Vec2 ℝ}

/-- A source is seen from the point with the same phase. -/
theorem source_withAcross (line : near.basis = .line a) (along : a.y = 0) (c : ℝ) :
    (near.withAcross c).source = near.source := by
  funext cell
  have level : (near.latticePoint cell).y = 0 := by
    unfold latticePoint
    rw [line]
    simp [along]
  have same : (near.latticePoint cell).dot (near.bloch.withAcross c) =
      (near.latticePoint cell).dot near.bloch := by
    unfold Vec2.dot Vec2.withAcross
    rw [level, zero_mul, zero_mul]
  change (⟨near.displacement cell, cexp (imaginaryUnit * ofReal
    ((near.latticePoint cell).dot (near.bloch.withAcross c)))⟩ : Source ℝ ℂ) = _
  rw [same]
  rfl

variable [SpecialFunctions ℂ]

theorem construct_withAcross (line : near.basis = .line a) (along : a.y = 0) (c : ℝ)
    (convergence : Convergence ℝ) (excludeInner : Bool) (obstacles : Obstacles ℝ) :
    (near.withAcross c).construct convergence excludeInner obstacles =
      near.construct convergence excludeInner obstacles := by
  unfold construct shell
  rw [source_withAcross line along]
  rfl

theorem longRange_withAcross (line : near.basis = .line a) (along : a.y = 0) (c : ℝ)
    (cells : List Cell) : (near.withAcross c).longRange cells = near.longRange cells := by
  unfold longRange
  rw [source_withAcross line along]
  rfl

end Nearby

/-! ## Both sums -/

section
variable [SpecialFunctions ℂ]

/-- The orders of a line are shifted by the component along it. -/
theorem Distant.construct_withAcross {far : Distant ℝ ℂ} (line : far.periodicity = .line) (c : ℝ)
    (convergence : Convergence ℝ) (obstacles : Obstacles ℝ) :
    (far.withAcross c).construct convergence obstacles = far.construct convergence obstacles := by
  have same : (far.withAcross c).shell = far.shell := by
    funext cells
    unfold shell withAcross
    dsimp only
    rw [line]
    rfl
  unfold construct
  rw [same]
  rfl

namespace PeriodicGreen
variable (green : PeriodicGreen ℝ) {a : Vec2 ℝ}

theorem trial_withAcross (near : Nearby ℝ ℂ) (line : near.basis = .line a) (along : a.y = 0) (c : ℝ)
    (r : Reciprocal ℝ) (retried : Bool) :
    green.trial (near.withAcross c) r retried =
      (·.withAcross c) <$> green.trial near r retried := by
  have periodic : (near.distant r).periodicity = .line := congrArg Basis.periodicity line
  have orders : (near.withAcross c).distant r = (near.distant r).withAcross c := rfl
  have correction : green.correction (near.withAcross c) = green.correction near := by
    unfold correction
    rw [Nearby.longRange_withAcross line along]
    rfl
  rw [trial_eq, trial_eq, Nearby.construct_withAcross line along, orders,
    Distant.construct_withAcross periodic, correction, map_bind]
  refine bind_congr fun nearby => ?_
  rw [map_bind]
  rfl

/-- The first sums for both Bloch vectors decide alike on the second ones, which are alike too. -/
theorem tries_withAcross (near : Nearby ℝ ℂ) (line : near.basis = .line a) (along : a.y = 0) (c : ℝ)
    (r : Reciprocal ℝ) :
    green.tries (near.withAcross c) r = (·.withAcross c) <$> green.tries near r := by
  have again := green.trial_withAcross
    { near with bloch := shiftedBloch near.wavenumber near.bloch } line along c r true
  unfold tries
  rw [trial_withAcross green near line along, bind_map_left, map_bind]
  refine bind_congr fun first => ?_
  change (if first.distant.singular then _ else pure (first.withAcross c)) = _
  split
  · exact again
  · rfl

/-- Bloch vectors that agree along the line have the same answers. -/
theorem answer_evaluate_withAcross (row : green.lattice.dimension = 1) (point : RealArray ℝ) (k : ℂ)
    {bloch bloch' : RealArray ℝ} {c : ℝ}
    (read : readBloch green.lattice.dimension bloch' =
      (·.withAcross c) <$> readBloch green.lattice.dimension bloch) :
    (green.evaluate point k bloch').answer =
      (·.withAcross c) <$> (green.evaluate point k bloch).answer := by
  rw [answer_evaluate, answer_evaluate, map_bind]
  refine bind_congr fun p => ?_
  rw [read, bind_map_left, map_bind]
  refine bind_congr fun b => ?_
  split
  · rfl
  · cases vectors : green.lattice.vectors with
    | error cause => rfl
    | ok basis =>
      rw [ok_bind, ok_bind, map_bind]
      cases accepted : green.lattice.reciprocal k p with
      | error cause => rfl
      | ok r =>
        obtain ⟨a, line, along⟩ := Lattice.line_of_reciprocal row vectors accepted
        exact green.tries_withAcross (green.nearFor p k b basis r) line along c r

/-- On a line the second component of a Bloch vector, left out or given, has no part in any result:
the values, both sums, the correction, the splitting parameter and whether the sums were retried
are the same. Only the reported Bloch vector keeps it. What fails, fails alike, and arguments that
are accepted have a result. -/
theorem evaluate_ignores_across (row : green.lattice.dimension = 1) (point : RealArray ℝ) (k : ℂ)
    (b c : ℝ) :
    (green.evaluate point k (.ofList [b, 0])).answer =
        (green.evaluate point k (.ofList [b])).answer ∧
      (green.evaluate point k (.ofList [b, c])).answer =
        (fun result => { result with bloch := ⟨result.bloch.x, c⟩ }) <$>
          (green.evaluate point k (.ofList [b])).answer ∧
      ∀ reading, green.Accepts point k (.ofList [b]) reading → ∃ result,
        (green.evaluate point k (.ofList [b])).answer = .ok result ∧
        (green.evaluate point k (.ofList [b, c])).answer =
          .ok { result with bloch := ⟨result.bloch.x, c⟩ } := by
  have padded : readBloch green.lattice.dimension (.ofList [b]) = .ok (⟨b, 0⟩ : Vec2 ℝ) := by
    rw [row]
    change Except.ok (⟨b, 0.0⟩ : Vec2 ℝ) = _
    norm_num
  have across : (green.evaluate point k (.ofList [b, c])).answer =
      (·.withAcross c) <$> (green.evaluate point k (.ofList [b])).answer := by
    refine green.answer_evaluate_withAcross row point k ?_
    rw [padded]
    rfl
  refine ⟨?_, across, fun reading accepted => ?_⟩
  · rw [answer_evaluate, answer_evaluate, padded]
    rfl
  · obtain ⟨result, _, _, events, ran, _⟩ := evaluate_course accepted
    have answered := answer_eq_ok_iff.mpr ⟨events, ran⟩
    refine ⟨result, answered, ?_⟩
    rw [across, answered]
    rfl

end PeriodicGreen

end

/-- On the light line, where the sums are taken again, the second component is seen nowhere but in
the Bloch vector of the result. -/
theorem PeriodicGreen.evaluate_ignores_across_on_light_line :
    outerUnitLine.lattice.dimension = 1 ∧ ∃ result : Evaluation ℝ ℂ,
      (outerUnitLine.evaluate (.ofList [0.1, 0.2, 0.3]) (1 : ℂ) (.ofList [1])).answer =
        .ok result ∧ result.retried = true ∧
      (outerUnitLine.evaluate (.ofList [0.1, 0.2, 0.3]) (1 : ℂ) (.ofList [1, 7])).answer =
        .ok { result with bloch := ⟨result.bloch.x, 7⟩ } := by
  obtain ⟨r, accepted, -⟩ := exists_accepts_outerUnitLine one_ne_zero 1
  obtain ⟨-, -, ends⟩ := evaluate_ignores_across outerUnitLine rfl (.ofList [0.1, 0.2, 0.3]) 1 1 7
  obtain ⟨result, answered, answered'⟩ := ends _ accepted
  obtain ⟨events, ran⟩ := answer_eq_ok_iff.mp answered
  exact ⟨rfl, result, answered, retried_outerUnitLine ran, answered'⟩

end LatticeGreen
