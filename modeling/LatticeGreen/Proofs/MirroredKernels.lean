import LatticeGreen.Proofs.ComplementaryError
import LatticeGreen.Proofs.ReciprocalDuality
import LatticeGreen.Proofs.SumSymmetry

/-!
# Kernels at a mirrored point

A point mirrored in the lattice plane, or across a line of sources in that plane, has the same
distances from the sources. Every kernel keeps its size there, and its derivatives in the mirrored
direction change their sign: once in the kernels of the sources, and by exchange of the two halves
in the profile of an order.
-/
namespace LatticeGreen

/-- The signs of the directions across a line along x. -/
structure Mirror where
  y : ℝ
  z : ℝ
  y_square : y * y = 1
  z_square : z * z = 1

namespace Mirror
variable (s : Mirror)

/-- The mirrored point. -/
def point (v : Vec3 ℝ) : Vec3 ℝ := ⟨v.x, s.y * v.y, s.z * v.z⟩

/-- Each derivative has the signs of its directions. -/
noncomputable def slots (t : Slots ℂ) : Slots ℂ where
  value := t.value
  dx := t.dx
  dy := s.y * t.dy
  dz := s.z * t.dz
  dxdy := s.y * t.dxdy
  dxdz := s.z * t.dxdz
  dydz := s.y * s.z * t.dydz
  dxdydz := s.y * s.z * t.dxdydz

/-- The sources are mirrored onto themselves. -/
def Fits (basis : Basis ℝ) : Prop := s.y = 1 ∨ ∃ a, basis = .line a ∧ a.y = 0

@[simp] theorem point_x (v : Vec3 ℝ) : (s.point v).x = v.x := rfl
@[simp] theorem point_y (v : Vec3 ℝ) : (s.point v).y = s.y * v.y := rfl
@[simp] theorem point_z (v : Vec3 ℝ) : (s.point v).z = s.z * v.z := rfl
@[simp] theorem slots_value (t : Slots ℂ) : (s.slots t).value = t.value := rfl

theorem slots_zero : s.slots Slots.zero = Slots.zero := by
  simp only [slots, Slots.zero, Slots.replicate, zeroC_exact, mul_zero]

theorem norm_sign {x : ℝ} (square : x * x = 1) (c : ℂ) : ‖(x : ℂ) * c‖ = ‖c‖ := by
  have unit : ‖(x : ℂ)‖ = 1 := by
    rw [Complex.norm_real, Real.norm_eq_abs]
    rcases mul_self_eq_one_iff.mp square with rfl | rfl <;> simp
  rw [norm_mul, unit, one_mul]

theorem symmetry : Slots.Symmetry s.slots where
  zero := s.slots_zero
  add t u := by
    change s.slots (Slots.zipWith (· + ·) t u) = Slots.zipWith (· + ·) (s.slots t) (s.slots u)
    simp only [slots, Slots.zipWith, mul_add]
  sub t u := by
    change s.slots (Slots.zipWith (· - ·) t u) = Slots.zipWith (· - ·) (s.slots t) (s.slots u)
    simp only [slots, Slots.zipWith, mul_sub]
  scale t x := by simp only [slots, Slots.scale, Slots.map, mul_assoc]
  modulus t := by
    simp only [slots, Slots.map, modulus_exact, mul_assoc, norm_sign s.y_square,
      norm_sign s.z_square]

/-- A mirrored displacement has the length that it had. -/
theorem lengthSquare_point (d : Vec3 ℝ) :
    FreeSpace.lengthSquare (s.point d) = FreeSpace.lengthSquare d := by
  simp only [FreeSpace.lengthSquare, point]
  linear_combination d.y * d.y * s.y_square + d.z * d.z * s.z_square

end Mirror

/-! ## Sources -/

theorem FreeSpace.term_mirror (s : Mirror) (k : ℂ) (d : Vec3 ℝ) (phase : ℂ) :
    term k (s.point d) phase = s.slots (term k d phase) := by
  unfold term isSource
  rw [s.lengthSquare_point]
  split
  · exact s.slots_zero.symm
  · simp only [Mirror.slots, Mirror.point, ofReal_exact, Complex.ofReal_mul, Slots.mk.injEq,
      true_and]
    refine ⟨?_, ?_, ?_, ?_, ?_, ?_⟩ <;> ring

/-- The source as seen from the mirrored point. -/
def Source.mirror (s : Mirror) (source : Source ℝ ℂ) : Source ℝ ℂ :=
  ⟨s.point source.displacement, source.phase⟩

section
variable [SpecialFunctions ℂ]

theorem ShortRange.term_mirror (s : Mirror) (k : ℂ) (eta : ℝ) (source : Source ℝ ℂ) :
    term k eta (source.mirror s) = s.slots (term k eta source) := by
  unfold term Source.mirror
  rw [s.lengthSquare_point]
  dsimp only
  split
  · simp only [Mirror.slots, slots, Slots.map, finiteOrZero_exact, Mirror.point, ofReal_exact,
      Complex.ofReal_mul, Slots.mk.injEq, true_and]
    refine ⟨?_, ?_, ?_, ?_, ?_, ?_⟩ <;> ring
  · exact s.slots_zero.symm

theorem LongRange.smallTerm_mirror (s : Mirror) (k : ℂ) (eta : ℝ) (source : Source ℝ ℂ) :
    smallTerm k eta (source.mirror s) = s.slots (smallTerm k eta source) := by
  unfold smallTerm Source.mirror
  simp only [s.lengthSquare_point, Mirror.slots, Slots.map, s.point_x, s.point_y, s.point_z,
    ofReal_exact, zeroC_exact, Complex.ofReal_mul, mul_zero, Slots.mk.injEq, true_and, and_true]
  refine ⟨?_, ?_, ?_, ?_, ?_⟩ <;> ring

/-- Whether the series is used, and what is noted, depends on distances and sizes only. -/
theorem LongRange.term_mirror (s : Mirror) (k : ℂ) (eta : ℝ) (source : Source ℝ ℂ) :
    term k eta (source.mirror s) = s.slots <$> term k eta source := by
  have small : isSmall k eta (source.mirror s) = isSmall k eta source := by
    unfold isSmall Source.mirror
    rw [s.lengthSquare_point]
  have whole : FreeSpace.term k (source.mirror s).displacement (source.mirror s).phase =
      s.slots (FreeSpace.term k source.displacement source.phase) :=
    FreeSpace.term_mirror s k source.displacement source.phase
  have left : difference k eta (source.mirror s) = s.slots (difference k eta source) := by
    unfold difference
    rw [whole, ShortRange.term_mirror, s.symmetry.sub]
  have sizes : cancellation k eta (source.mirror s) = cancellation k eta source := by
    unfold cancellation Cancellation.ofRows
    rw [whole, ShortRange.term_mirror, ← s.symmetry.sub]
    simp only [Source.mirror, s.lengthSquare_point, s.slots_value]
  unfold term
  rw [small, sizes, left, smallTerm_mirror]
  split
  · rw [map_pure]
  · rw [map_bind]
    exact bind_congr fun _ => (map_pure _ _).symm

/-! ## Orders -/

/-- The profile of an order is even in the height and its slope is odd: at the mirrored height the
two halves have changed places. -/
theorem PlaneFactor.profile_neg (z eta : ℝ) (q : ℂ) :
    profile (-z) eta q = ⟨(profile z eta q).value, -(profile z eta q).slope⟩ := by
  have outward : q * ((-z : ℝ) : ℂ) = -q * (z : ℂ) := by push_cast; ring
  have inward : -q * ((-z : ℝ) : ℂ) = q * (z : ℂ) := by push_cast; ring
  have above : ∀ half : ℂ, half + ((-z * eta : ℝ) : ℂ) = half - ((z * eta : ℝ) : ℂ) := by
    intro half; push_cast; ring
  have below : ∀ half : ℂ, half - ((-z * eta : ℝ) : ℂ) = half + ((z * eta : ℝ) : ℂ) := by
    intro half; push_cast; ring
  simp only [profile, ofReal_exact, cexp_exact, outward, inward, above, below,
    HeightProfile.mk.injEq]
  exact ⟨add_comm _ _, by ring⟩

theorem PlaneFactor.factor_mirror (s : Mirror) (z eta : ℝ) (q : ℂ) :
    factor (s.z * z) eta q = ⟨(factor z eta q).value, s.z * (factor z eta q).slope⟩ := by
  rcases mul_self_eq_one_iff.mp s.z_square with upright | reversed
  · rw [upright, one_mul, Complex.ofReal_one, one_mul]
  · rw [reversed, neg_one_mul]
    simp only [factor, profile_neg, finiteOrZero_exact]
    push_cast
    rw [neg_one_mul]

/-- Along the plane the point stays where it is. -/
theorem PlaneOrder.term_mirror (s : Mirror) (level : s.y = 1) (k : ℂ) (eta : ℝ) (point : Vec3 ℝ)
    (p : Vec2 ℝ) : term k eta (s.point point) p = s.slots (term k eta point p) := by
  have planar : (s.point point).planar = point.planar := by
    simp only [Vec3.planar, Mirror.point, level, one_mul]
  simp only [term, planar, s.point_z, PlaneFactor.factor_mirror, Mirror.slots, level,
    Complex.ofReal_one, Slots.mk.injEq, true_and]
  refine ⟨?_, ?_, ?_, ?_, ?_, ?_⟩ <;> ring

theorem LineOrder.term_mirror (s : Mirror) (k : ℂ) (rho eta : ℝ) (point : Vec3 ℝ) (kx : ℝ) :
    term k rho eta (s.point point) kx = s.slots <$> term k rho eta point kx := by
  unfold term
  rw [map_bind]
  refine bind_congr fun g => ?_
  rw [map_pure]
  congr 1
  simp only [slots, Mirror.slots, Mirror.point, Slots.map, finiteOrZero_exact, ofReal_exact,
    Slots.mk.injEq, true_and]
  split
  · norm_num
  · push_cast
    refine ⟨?_, ?_, ?_, ?_, ?_, ?_⟩ <;> ring

/-! ## Both lattice sums -/

/-- What a nearby sum depends on, with the point mirrored. -/
def Nearby.mirror (s : Mirror) (near : Nearby ℝ ℂ) : Nearby ℝ ℂ :=
  { near with point := s.point near.point }

/-- What a distant sum depends on, with the point mirrored. -/
def Distant.mirror (s : Mirror) (far : Distant ℝ ℂ) : Distant ℝ ℂ :=
  { far with point := s.point far.point }

namespace Nearby
variable {s : Mirror} {near : Nearby ℝ ℂ} (fits : s.Fits near.basis)
include fits

omit [SpecialFunctions ℂ] in
theorem mirror_latticePoint (cell : Cell) :
    s.y * (near.latticePoint cell).y = (near.latticePoint cell).y := by
  rcases fits with level | ⟨a, line, straight⟩
  · rw [level, one_mul]
  · simp only [latticePoint, line, straight, mul_zero]

omit [SpecialFunctions ℂ] in
theorem source_mirror (cell : Cell) :
    (near.mirror s).source cell = (near.source cell).mirror s := by
  have place : (near.mirror s).displacement cell = s.point (near.displacement cell) := by
    have kept := mirror_latticePoint fits cell
    change (⟨_, s.y * near.point.y - (near.latticePoint cell).y, _⟩ : Vec3 ℝ) =
      ⟨_, s.y * (near.point.y - (near.latticePoint cell).y), _⟩
    rw [mul_sub, kept]
    rfl
  exact congrArg (Source.mk · (near.phase cell)) place

theorem construct_mirror (c : Convergence ℝ) (excludeInner : Bool) (obstacles : Obstacles ℝ) :
    (near.mirror s).construct c excludeInner obstacles =
      LatticeSum.mapValues s.slots <$> near.construct c excludeInner obstacles := by
  have basis : (near.mirror s).basis = near.basis := rfl
  refine Nearby.construct_mapSlots s.symmetry basis (fun cell => ?_) c excludeInner obstacles
  unfold term
  simp only [source_mirror fits cell]
  have same : (near.mirror s).splitting = near.splitting := rfl
  rw [same]
  split
  · exact FreeSpace.term_mirror s near.wavenumber _ _
  · exact ShortRange.term_mirror s near.wavenumber near.splitting _

theorem longRange_mirror (cells : List Cell) :
    (near.mirror s).longRange cells = s.slots <$> near.longRange cells := by
  have wavenumber : (near.mirror s).wavenumber = near.wavenumber := rfl
  have splitting : (near.mirror s).splitting = near.splitting := rfl
  refine Nearby.longRange_mapSlots s.symmetry wavenumber splitting (fun cell => ?_) cells
  rw [source_mirror fits cell]
  exact LongRange.term_mirror s near.wavenumber near.splitting _

end Nearby

/-- The orders of a plane need the point to stay where it is along the plane. -/
theorem Distant.construct_mirror {s : Mirror} {far : Distant ℝ ℂ}
    (level : far.periodicity = .plane → s.y = 1) (c : Convergence ℝ) (obstacles : Obstacles ℝ) :
    (far.mirror s).construct c obstacles =
      LatticeSum.mapValues s.slots <$> far.construct c obstacles := by
  have periodicity : (far.mirror s).periodicity = far.periodicity := rfl
  have splitting : (far.mirror s).splitting = far.splitting := rfl
  have reciprocal : (far.mirror s).reciprocal = far.reciprocal := rfl
  refine Distant.construct_mapSlots s.symmetry periodicity splitting reciprocal (fun cells => ?_) c
    obstacles
  unfold shell
  rw [periodicity]
  cases kind : far.periodicity with
  | unspecified => rfl
  | line =>
    exact LineOrder.shell_zero_mapSlots s.symmetry far.wavenumber (cells.map far.along)
      fun kx _ =>
        LineOrder.term_mirror s far.wavenumber far.reciprocal.rho far.splitting far.point kx
  | plane =>
    exact congrArg pure (PlaneOrder.shell_mapSlots s.symmetry far.wavenumber far.splitting
      (cells.map far.shifted) fun p _ =>
        PlaneOrder.term_mirror s (level kind) far.wavenumber far.splitting far.point p)

end

end LatticeGreen
