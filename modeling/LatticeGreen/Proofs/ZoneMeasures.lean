import LatticeGreen.Proofs.BasisOrientation

/-!
# The measures of a cell and of its zone

A lattice and its reciprocal lattice fill the plane, or the line, with cells and with zones. The
product of the two measures is the square of two pi in a plane and two pi on a line, whichever way
the basis turns and however oblique it is. A basis has a reciprocal lattice unless its cell is empty
or its line leaves the x direction, and each of the two is refused for its own cause.
-/
namespace LatticeGreen

/-! ## Cells -/

/-- The length or the area of the cell that a basis spans. -/
noncomputable def Basis.measure : Basis ℝ → ℝ
  | .line a => √(a.dot a)
  | .plane a1 a2 => |a1.cross a2|

theorem Lattice.cellMeasure_ofBasis {basis : Basis ℝ} {lattice : Lattice ℝ}
    (made : ofBasis basis.rows = .ok lattice) : lattice.cellMeasure = .ok basis.measure := by
  cases basis with
  | line a =>
    obtain rfl : _ = lattice := Except.ok.inj made
    have length : (0.0 : ℝ) + a.x * a.x + a.y * a.y = a.dot a := by
      unfold Vec2.dot
      norm_num
    change Except.ok √((0.0 : ℝ) + a.x * a.x + a.y * a.y) = Except.ok √(a.dot a)
    rw [length]
  | plane a1 a2 =>
    obtain rfl : _ = lattice := Except.ok.inj made
    rfl

/-- The area of two vectors times that of two others is the determinant of their products. -/
theorem Vec2.cross_mul_cross (u v a b : Vec2 ℝ) :
    u.cross v * a.cross b = u.dot a * v.dot b - u.dot b * v.dot a := by
  unfold cross dot
  ring

theorem Vec2.dot_self_eq_zero_iff {a : Vec2 ℝ} : a.dot a = 0 ↔ a.x = 0 ∧ a.y = 0 := by
  unfold dot
  constructor
  · intro short
    constructor
    · nlinarith
    · nlinarith
  · rintro ⟨flat, along⟩
    rw [flat, along, mul_zero, add_zero]

namespace Reciprocal
variable {a a1 a2 : Vec2 ℝ} {k : ℂ} {point : Vec3 ℝ} {r : Reciprocal ℝ}

/-! ## Zones -/

theorem zoneMeasure_ofLine (accepted : construct (.line a) k point = .ok r) :
    r.zoneMeasure = |r.gamma1.x| := by
  have spans := spans_of_construct accepted
  have filled : (a.dot a == (0.0 : ℝ)) = false := beq_zero_of_ne (dot_self_pos spans).ne'
  have along : (a.y == (0.0 : ℝ)) = true := by
    rw [beq_zero_exact, decide_eq_true_iff]
    exact spans.2
  obtain ⟨-, straight, -⟩ := gamma_ofLine accepted
  have length : r.zoneMeasure = √(r.gamma1.dot r.gamma1) := by
    unfold construct ofLine at accepted
    simp only [filled, along, Bool.not_true, Bool.false_eq_true, if_false] at accepted
    rw [← Except.ok.inj accepted]
    rfl
  rw [length, Vec2.dot, straight, mul_zero, add_zero, Real.sqrt_mul_self_eq_abs]

theorem zoneMeasure_ofPlane (accepted : construct (.plane a1 a2) k point = .ok r) :
    r.zoneMeasure = |r.gamma1.cross r.gamma2| ∧ r.rho = 0 := by
  have filled : (a1.cross a2 == (0.0 : ℝ)) = false := beq_zero_of_ne (spans_of_construct accepted)
  have none : (0.0 : ℝ) = 0 := by norm_num
  unfold construct ofPlane at accepted
  simp only [filled, Bool.false_eq_true, if_false] at accepted
  rw [← Except.ok.inj accepted]
  exact ⟨rfl, none⟩

theorem zoneMeasure_mul_length (accepted : construct (.line a) k point = .ok r) :
    r.zoneMeasure * (Basis.line a).measure = 2 * Real.pi := by
  obtain ⟨dual, -, -⟩ := gamma_ofLine accepted
  have straight : a.y = 0 := (spans_of_construct accepted).2
  have length : (Basis.line a).measure = |a.x| := by
    change √(a.x * a.x + a.y * a.y) = |a.x|
    rw [straight, mul_zero, add_zero, Real.sqrt_mul_self_eq_abs]
  rw [zoneMeasure_ofLine accepted, length, ← abs_mul, dual, abs_of_pos Real.two_pi_pos]

theorem zoneMeasure_mul_area (accepted : construct (.plane a1 a2) k point = .ok r) :
    r.zoneMeasure * (Basis.plane a1 a2).measure = (2 * Real.pi) ^ 2 := by
  obtain ⟨dual11, dual12, dual21, dual22⟩ := gamma_ofPlane accepted
  have product : r.gamma1.cross r.gamma2 * a1.cross a2 = (2 * Real.pi) ^ 2 := by
    rw [Vec2.cross_mul_cross, dual11, dual12, dual21, dual22, mul_zero, sub_zero, sq]
  change r.zoneMeasure * |a1.cross a2| = (2 * Real.pi) ^ 2
  rw [(zoneMeasure_ofPlane accepted).1, ← abs_mul, product, abs_of_nonneg (sq_nonneg _)]

theorem zoneMeasure_ne_zero {basis : Basis ℝ} (accepted : construct basis k point = .ok r) :
    r.zoneMeasure ≠ 0 := by
  intro empty
  cases basis with
  | line a =>
    have product := zoneMeasure_mul_length accepted
    rw [empty, zero_mul] at product
    exact Real.two_pi_pos.ne product
  | plane a1 a2 =>
    have product := zoneMeasure_mul_area accepted
    rw [empty, zero_mul] at product
    exact (sq_pos_of_pos Real.two_pi_pos).ne product

/-! ## Refused bases -/

theorem construct_of_no_length (short : a.dot a = 0) :
    construct (.line a) k point = .error .emptyCell := by
  have empty : (a.dot a == (0.0 : ℝ)) = true := by
    rw [beq_zero_exact, decide_eq_true_iff]
    exact short
  unfold construct ofLine
  simp only [empty, if_true]

theorem construct_of_leaning (leaning : a.y ≠ 0) :
    construct (.line a) k point = .error .notAlongX := by
  have filled : (a.dot a == (0.0 : ℝ)) = false := by
    refine beq_zero_of_ne fun short => ?_
    exact leaning (Vec2.dot_self_eq_zero_iff.mp short).2
  have off : (a.y == (0.0 : ℝ)) = false := beq_zero_of_ne leaning
  unfold construct ofLine
  simp only [filled, off, Bool.false_eq_true, Bool.not_false, if_false, if_true]

theorem construct_of_no_area (flat : a1.cross a2 = 0) :
    construct (.plane a1 a2) k point = .error .emptyCell := by
  have empty : (a1.cross a2 == (0.0 : ℝ)) = true := by
    rw [beq_zero_exact, decide_eq_true_iff]
    exact flat
  unfold construct ofPlane
  simp only [empty, if_true]

/-- The reciprocal lattice is dual to the lattice, and its zone to the cell. A line is refused if it
has no length or leaves the x direction, a plane if it has no area, and nothing else is; the
distance of the point from a line does not depend on its place along it. -/
theorem construct_dual (basis : Basis ℝ) (k : ℂ) (point : Vec3 ℝ) :
    ∃ lattice measure, Lattice.ofBasis basis.rows = .ok lattice ∧
      lattice.cellMeasure = .ok measure ∧
      lattice.reciprocal k point = (construct basis k point).mapError .configuration ∧
      match basis with
      | .line a =>
        (a.dot a = 0 → construct (.line a) k point = .error .emptyCell) ∧
        (a.y ≠ 0 → construct (.line a) k point = .error .notAlongX) ∧
        (a.x ≠ 0 → a.y = 0 → ∃ r, construct (.line a) k point = .ok r ∧
          r.gamma1.dot a = 2 * Real.pi ∧ r.gamma2 = ⟨0, 0⟩ ∧
          r.zoneMeasure * measure = 2 * Real.pi ∧ r.rho = √(point.y ^ 2 + point.z ^ 2))
      | .plane a1 a2 =>
        (a1.cross a2 = 0 → construct (.plane a1 a2) k point = .error .emptyCell) ∧
        (a1.cross a2 ≠ 0 → ∃ r, construct (.plane a1 a2) k point = .ok r ∧
          r.gamma1.dot a1 = 2 * Real.pi ∧ r.gamma1.dot a2 = 0 ∧
          r.gamma2.dot a1 = 0 ∧ r.gamma2.dot a2 = 2 * Real.pi ∧
          r.zoneMeasure * measure = (2 * Real.pi) ^ 2 ∧
          r.zoneMeasure = |r.gamma1.cross r.gamma2| ∧ r.rho = 0) := by
  obtain ⟨lattice, made, vectors⟩ := Lattice.exists_ofBasis basis
  refine ⟨lattice, basis.measure, made, Lattice.cellMeasure_ofBasis made,
    Lattice.reciprocal_eq vectors k point, ?_⟩
  cases basis with
  | line a =>
    refine ⟨construct_of_no_length, construct_of_leaning, fun long straight => ?_⟩
    obtain ⟨r, accepted, distance, -⟩ := ofLine_of_spans ⟨long, straight⟩ k point
    obtain ⟨dual, -, none⟩ := gamma_ofLine accepted
    refine ⟨r, accepted, ?_, none, zoneMeasure_mul_length accepted, distance⟩
    rw [Vec2.dot, straight, mul_zero, add_zero, dual]
  | plane a1 a2 =>
    refine ⟨construct_of_no_area, fun area => ?_⟩
    obtain ⟨r, accepted⟩ := exists_construct (show (Basis.plane a1 a2).Spans from area) k point
    obtain ⟨dual11, dual12, dual21, dual22⟩ := gamma_ofPlane accepted
    obtain ⟨zone, inPlane⟩ := zoneMeasure_ofPlane accepted
    exact ⟨r, accepted, dual11, dual12, dual21, dual22, zoneMeasure_mul_area accepted, zone,
      inPlane⟩

/-- A line given by a vector of negative length, and a point beyond its end. -/
theorem construct_dual_reversed :
    ∃ lattice measure, Lattice.ofBasis (Basis.line ⟨-2, 0⟩).rows = .ok lattice ∧
      lattice.cellMeasure = .ok measure ∧
      ∃ r, construct (.line ⟨-2, 0⟩) (1 : ℂ) ⟨7, 3, 4⟩ = .ok r ∧
        r.gamma1.dot ⟨-2, 0⟩ = 2 * Real.pi ∧ r.zoneMeasure * measure = 2 * Real.pi ∧ r.rho = 5 := by
  obtain ⟨lattice, measure, made, measured, -, -, -, dual⟩ :=
    construct_dual (.line ⟨-2, 0⟩) 1 ⟨7, 3, 4⟩
  obtain ⟨r, accepted, turn, -, zone, distance⟩ := dual (by norm_num) rfl
  have five : √((3 : ℝ) ^ 2 + 4 ^ 2) = 5 := by
    rw [Real.sqrt_eq_iff_mul_self_eq] <;> norm_num
  exact ⟨lattice, measure, made, measured, r, accepted, turn, zone, distance.trans five⟩

end Reciprocal

end LatticeGreen
