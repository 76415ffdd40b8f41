import LatticeGreen.Nearby
import LatticeGreen.Proofs.SplittingBounds

/-!
# The reciprocal lattice is dual

The product of a vector of the lattice and a vector of its reciprocal lattice is a whole number of
turns, for oblique and left-handed bases too. A reciprocal lattice that is computed anew after a
step along the lattice is the one that was computed before.
-/
namespace LatticeGreen

instance : Add Cell := ⟨fun c n => ⟨c.n1 + n.n1, c.n2 + n.n2⟩⟩
instance : Sub Cell := ⟨fun c n => ⟨c.n1 - n.n1, c.n2 - n.n2⟩⟩

@[simp] theorem Cell.n1_add (c n : Cell) : (c + n).n1 = c.n1 + n.n1 := rfl
@[simp] theorem Cell.n2_add (c n : Cell) : (c + n).n2 = c.n2 + n.n2 := rfl
@[simp] theorem Cell.n1_sub (c n : Cell) : (c - n).n1 = c.n1 - n.n1 := rfl
@[simp] theorem Cell.n2_sub (c n : Cell) : (c - n).n2 = c.n2 - n.n2 := rfl

section
variable {R : Type} [Add R]

instance : Add (Vec2 R) := ⟨fun u v => ⟨u.x + v.x, u.y + v.y⟩⟩

@[simp] theorem Vec2.x_add (u v : Vec2 R) : (u + v).x = u.x + v.x := rfl
@[simp] theorem Vec2.y_add (u v : Vec2 R) : (u + v).y = u.y + v.y := rfl

/-- A vector moved along the lattice plane. -/
def Vec3.translate (v : Vec3 R) (l : Vec2 R) : Vec3 R := ⟨v.x + l.x, v.y + l.y, v.z⟩

end

/-! ## Duality -/

namespace Reciprocal

/-- The dual vector of a line. -/
theorem gamma_ofLine {a : Vec2 ℝ} {k : ℂ} {point : Vec3 ℝ} {r : Reciprocal ℝ}
    (accepted : construct (.line a) k point = .ok r) :
    r.gamma1.x * a.x = 2 * Real.pi ∧ r.gamma1.y = 0 ∧ r.gamma2 = ⟨0, 0⟩ := by
  have spans := spans_of_construct accepted
  have long := spans.1
  have two : (2.0 : ℝ) = 2 := by norm_num
  have zero : (0.0 : ℝ) = 0 := by norm_num
  have filled : (a.dot a == (0.0 : ℝ)) = false := beq_zero_of_ne (dot_self_pos spans).ne'
  have along : (a.y == (0.0 : ℝ)) = true := by
    rw [beq_zero_exact, decide_eq_true_iff]
    exact spans.2
  simp only [construct, ofLine, filled, along, Bool.not_true, Bool.false_eq_true, if_false]
    at accepted
  obtain rfl := Except.ok.inj accepted
  refine ⟨?_, ?_, ?_⟩
  · simp only [pi_exact, two, Vec2.dot, spans.2, mul_zero, add_zero]
    field_simp
  · simp only [spans.2, mul_zero]
  · simp only [zero]

/-- The dual vectors of a plane, whichever way its basis turns. -/
theorem gamma_ofPlane {a1 a2 : Vec2 ℝ} {k : ℂ} {point : Vec3 ℝ} {r : Reciprocal ℝ}
    (accepted : construct (.plane a1 a2) k point = .ok r) :
    r.gamma1.dot a1 = 2 * Real.pi ∧ r.gamma1.dot a2 = 0 ∧
      r.gamma2.dot a1 = 0 ∧ r.gamma2.dot a2 = 2 * Real.pi := by
  have area : a1.cross a2 ≠ 0 := spans_of_construct accepted
  have two : (2.0 : ℝ) = 2 := by norm_num
  have filled : (a1.cross a2 == (0.0 : ℝ)) = false := beq_zero_of_ne area
  simp only [construct, ofPlane, filled, Bool.false_eq_true, if_false] at accepted
  obtain rfl := Except.ok.inj accepted
  simp only [pi_exact, two, Vec2.dot]
  refine ⟨?_, ?_, ?_, ?_⟩
  · field_simp
    unfold Vec2.cross
    ring
  · field_simp
    ring
  · field_simp
    ring
  · field_simp
    unfold Vec2.cross
    ring

/-- A vector of the lattice and one of its reciprocal lattice make a whole number of turns. -/
theorem dot_latticePoint_vector (near : Nearby ℝ ℂ) {k : ℂ} {point : Vec3 ℝ} {r : Reciprocal ℝ}
    (accepted : construct near.basis k point = .ok r) (n m : Cell) :
    ∃ turns : ℤ, (near.latticePoint n).dot (r.vector m) = turns * (2 * Real.pi) := by
  unfold Nearby.latticePoint vector
  cases basis : near.basis with
  | line a =>
    rw [basis] at accepted
    obtain ⟨dual, flat, none⟩ := gamma_ofLine accepted
    have straight : a.y = 0 := (spans_of_construct accepted).2
    refine ⟨n.n1 * m.n1, ?_⟩
    simp only [Vec2.dot, none, straight, mul_zero, add_zero, zero_mul]
    push_cast
    linear_combination (n.n1 : ℝ) * m.n1 * dual
  | plane a1 a2 =>
    rw [basis] at accepted
    obtain ⟨dual11, dual12, dual21, dual22⟩ := gamma_ofPlane accepted
    simp only [Vec2.dot] at dual11 dual12 dual21 dual22
    refine ⟨n.n1 * m.n1 + n.n2 * m.n2, ?_⟩
    simp only [Vec2.dot]
    push_cast
    linear_combination (n.n1 : ℝ) * m.n1 * dual11 + (n.n2 : ℝ) * m.n1 * dual12 +
      (n.n1 : ℝ) * m.n2 * dual21 + (n.n2 : ℝ) * m.n2 * dual22

/-! ## Points at one distance -/

/-- The reciprocal lattice of a line depends on the point through its distance from the line. -/
theorem ofLine_congr (a : Vec2 ℝ) (k : ℂ) {point point' : Vec3 ℝ}
    (distance : a.y = 0 →
      point'.y * point'.y + point'.z * point'.z = point.y * point.y + point.z * point.z) :
    ofLine a k point' = ofLine a k point := by
  unfold ofLine
  dsimp only
  split
  · rfl
  rename_i filled
  split
  · rfl
  rename_i along
  have flat : a.y = 0 := by
    norm_num at along
    exact along
  have long : a.x ≠ 0 := by
    rintro short
    refine filled ?_
    norm_num [Vec2.dot, flat, short]
  have projected : ∀ p : Vec3 ℝ, p.planar.dot a / a.dot a * a.x = p.x := by
    intro p
    simp only [Vec2.dot, Vec3.planar, flat, mul_zero, add_zero]
    field_simp
  have across : ∀ p : Vec3 ℝ, (⟨p.x - p.planar.dot a / a.dot a * a.x,
      p.y - p.planar.dot a / a.dot a * a.y⟩ : Vec2 ℝ) = ⟨0, p.y⟩ := by
    intro p
    rw [projected, flat, mul_zero, sub_self, sub_zero]
  have square : (⟨0, point'.y⟩ : Vec2 ℝ).dot ⟨0, point'.y⟩ + point'.z * point'.z =
      (⟨0, point.y⟩ : Vec2 ℝ).dot ⟨0, point.y⟩ + point.z * point.z := by
    simp only [Vec2.dot, mul_zero, zero_add]
    exact distance flat
  rw [across, across, square]

/-- A step along the lattice leaves its reciprocal lattice and the parameter chosen for the point as
they are. -/
theorem construct_translate (near : Nearby ℝ ℂ) (k : ℂ) (point : Vec3 ℝ) (n : Cell) :
    construct near.basis k (point.translate (near.latticePoint n)) =
      construct near.basis k point := by
  unfold Nearby.latticePoint
  cases near.basis with
  | line a =>
    refine ofLine_congr a k fun flat => ?_
    simp only [Vec3.translate, flat, mul_zero, add_zero]
  | plane a1 a2 => rfl

end Reciprocal

/-- The phase of two angles together. -/
theorem exp_add_angle (x y : ℝ) :
    Complex.exp (Complex.I * (x + y : ℝ)) =
      Complex.exp (Complex.I * x) * Complex.exp (Complex.I * y) := by
  rw [← Complex.exp_add, Complex.ofReal_add, mul_add]

/-- A whole number of turns more leaves a phase as it is. -/
theorem exp_turns {x y : ℝ} {turns : ℤ} (turned : y = x + turns * (2 * Real.pi)) :
    Complex.exp (Complex.I * y) = Complex.exp (Complex.I * x) := by
  have whole : Complex.I * ((turns * (2 * Real.pi) : ℝ) : ℂ) =
      turns * (2 * Real.pi * Complex.I) := by
    push_cast
    ring
  rw [turned, exp_add_angle, whole, Complex.exp_int_mul_two_pi_mul_I, mul_one]

end LatticeGreen
