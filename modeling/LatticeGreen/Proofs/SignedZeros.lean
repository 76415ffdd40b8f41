import LatticeGreen.Cartesian
import LatticeGreen.Proofs.ExactScalars
import Mathlib

/-!
# Exact numbers with signed zeros

Real numbers of a sign and a magnitude, so that there are two zeros. Nothing is rounded, and the
signs follow the rules for floating-point numbers: a product has the sign of its factors, and a sum
that vanishes is a positive zero unless both summands are negative. Of complex functions the root
and the logarithm are cut along the negative real axis, where the sign of a zero imaginary part
tells one side from the other.
-/
namespace LatticeGreen
open scoped NNReal

/-- A real number with a sign of its own, also where it is zero. -/
structure SignedReal where
  negative : Bool
  magnitude : ℝ≥0

namespace SignedReal

noncomputable def value (x : SignedReal) : ℝ := if x.negative then -x.magnitude else x.magnitude

/-- The number of a value. A zero gets the sign that is given. -/
noncomputable def ofValue (negative : Bool) (v : ℝ) : SignedReal :=
  ⟨if v = 0 then negative else v < 0, ‖v‖₊⟩

/-- The number of a sign and a size. -/
noncomputable def ofSize (negative : Bool) (size : ℝ) : SignedReal := ⟨negative, size.toNNReal⟩

noncomputable instance : Neg SignedReal := ⟨fun x => ⟨!x.negative, x.magnitude⟩⟩

noncomputable instance : Mul SignedReal :=
  ⟨fun x y => ⟨x.negative ^^ y.negative, x.magnitude * y.magnitude⟩⟩

noncomputable instance : Div SignedReal :=
  ⟨fun x y => ⟨x.negative ^^ y.negative, x.magnitude / y.magnitude⟩⟩

noncomputable instance : Add SignedReal :=
  ⟨fun x y => ofValue (x.negative && y.negative) (x.value + y.value)⟩

noncomputable instance : Sub SignedReal := ⟨fun x y => x + -y⟩

noncomputable instance : OfScientific SignedReal :=
  ⟨fun m s e => ofValue false (OfScientific.ofScientific m s e)⟩

/-! ## Values -/

@[simp] theorem value_ofValue (negative : Bool) (v : ℝ) : (ofValue negative v).value = v := by
  unfold ofValue value
  rcases lt_trichotomy v 0 with below | rfl | above
  · simp [below.ne, below, abs_of_neg below]
  · simp
  · simp [above.ne', above.le, abs_of_pos above]

theorem value_ofSize {negative : Bool} {size : ℝ} (nonnegative : 0 ≤ size) :
    (ofSize negative size).value = if negative then -size else size := by
  unfold ofSize value
  rw [Real.coe_toNNReal size nonnegative]

theorem abs_value_ofSize {negative : Bool} {size : ℝ} (nonnegative : 0 ≤ size) :
    |(ofSize negative size).value| = size := by
  rw [value_ofSize nonnegative]
  split
  · rw [abs_neg, abs_of_nonneg nonnegative]
  · exact abs_of_nonneg nonnegative

@[simp] theorem value_neg (x : SignedReal) : (-x).value = -x.value := by
  change (⟨!x.negative, x.magnitude⟩ : SignedReal).value = _
  unfold value
  cases x.negative <;> simp

@[simp] theorem value_mul (x y : SignedReal) : (x * y).value = x.value * y.value := by
  change (⟨x.negative ^^ y.negative, x.magnitude * y.magnitude⟩ : SignedReal).value = _
  unfold value
  cases x.negative <;> cases y.negative <;> simp

@[simp] theorem value_div (x y : SignedReal) : (x / y).value = x.value / y.value := by
  change (⟨x.negative ^^ y.negative, x.magnitude / y.magnitude⟩ : SignedReal).value = _
  unfold value
  cases x.negative <;> cases y.negative <;> simp [neg_div, div_neg]

@[simp] theorem value_add (x y : SignedReal) : (x + y).value = x.value + y.value :=
  value_ofValue _ _

@[simp] theorem value_sub (x y : SignedReal) : (x - y).value = x.value - y.value := by
  change (x + -y).value = _
  rw [value_add, value_neg, sub_eq_add_neg]

/-- A numeral has its value, and no negative sign. -/
@[simp] theorem value_ofScientific (m : Nat) (s : Bool) (e : Nat) :
    (OfScientific.ofScientific m s e : SignedReal).value = OfScientific.ofScientific m s e :=
  value_ofValue _ _

/-! ## Signs -/

@[simp] theorem negative_neg (x : SignedReal) : (-x).negative = !x.negative := rfl

@[simp] theorem negative_mul (x y : SignedReal) :
    (x * y).negative = (x.negative ^^ y.negative) := rfl

theorem value_nonneg {x : SignedReal} (positive : x.negative = false) : 0 ≤ x.value := by
  simp [value, positive]

theorem value_nonpos {x : SignedReal} (negative : x.negative = true) : x.value ≤ 0 := by
  simp [value, negative]

theorem ext_value {x y : SignedReal} (sign : x.negative = y.negative) (same : x.value = y.value) :
    x = y := by
  obtain ⟨negative, size⟩ := x
  obtain ⟨negative', size'⟩ := y
  obtain rfl : negative = negative' := sign
  refine (SignedReal.mk.injEq ..).mpr ⟨rfl, ?_⟩
  cases negative with
  | false => exact NNReal.coe_injective same
  | true => exact NNReal.coe_injective (neg_injective same)

/-- Numbers of one sign are opposite only if both are zero. -/
theorem eq_of_eq_neg {x y : SignedReal} (sign : x.negative = y.negative)
    (opposite : x.value = -y.value) : x.value = y.value := by
  cases negative : y.negative with
  | false =>
    have := value_nonneg negative
    have := value_nonneg (sign.trans negative)
    linarith
  | true =>
    have := value_nonpos negative
    have := value_nonpos (sign.trans negative)
    linarith

theorem negative_of_pos {x : SignedReal} (above : 0 < x.value) : x.negative = false := by
  by_contra negative
  exact above.not_ge (value_nonpos (Bool.eq_true_of_not_eq_false negative))

theorem negative_ofValue_of_nonneg {v : ℝ} (above : 0 ≤ v) :
    (ofValue false v).negative = false := by
  unfold ofValue
  split
  · rfl
  · exact decide_eq_false above.not_gt

/-- A sum that vanishes is positive if one summand is. -/
theorem negative_add_of_nonneg {x y : SignedReal} (left : x.negative = false)
    (total : 0 ≤ x.value + y.value) : (x + y).negative = false := by
  change (ofValue (x.negative && y.negative) (x.value + y.value)).negative = false
  rw [left, Bool.false_and]
  exact negative_ofValue_of_nonneg total

theorem negative_add {x y : SignedReal} (left : x.negative = false) (right : y.negative = false) :
    (x + y).negative = false :=
  negative_add_of_nonneg left (add_nonneg (value_nonneg left) (value_nonneg right))

/-- The same sign, and zero at the same time. -/
def SameSign (x y : SignedReal) : Prop := x.negative = y.negative ∧ (x.value = 0 ↔ y.value = 0)

theorem sameSign_mul_of_pos (x : SignedReal) {scale : SignedReal} (positive : 0 < scale.value) :
    SameSign (x * scale) x := by
  refine ⟨?_, ?_⟩
  · rw [negative_mul, negative_of_pos positive, Bool.xor_false]
  · rw [value_mul, mul_eq_zero_iff_right positive.ne']

/-- The root keeps the sign of a zero. Nothing is infinite. -/
noncomputable instance : RealFunctions SignedReal where
  sqrt := fun x => ofSize x.negative √x.value
  abs := fun x => ⟨false, x.magnitude⟩
  maximum := fun x y => if x.value < y.value then y else x
  isFinite := fun _ => true
  pi := ofValue false Real.pi
  eulerGamma := ofValue false Real.eulerMascheroniConstant

end SignedReal

/-! ## Complex numbers of two such parts -/

namespace Cartesian
open SignedReal ComplexConjugate

/-- The complex number, without the signs of zeros. -/
noncomputable def value (z : Cartesian SignedReal) : ℂ := ⟨z.re.value, z.im.value⟩

/-- The complex number mirrored into the closed upper half plane. -/
noncomputable def raised (z : Cartesian SignedReal) : ℂ := ⟨z.re.value, |z.im.value|⟩

/-- The size of the principal argument. A zero lies in the direction that the sign of its real part
tells. -/
noncomputable def angle (z : Cartesian SignedReal) : ℝ :=
  if z.value = 0 then if z.re.negative then Real.pi else 0 else z.raised.arg

/-- The principal argument, on the side of the imaginary part. -/
noncomputable def direction (z : Cartesian SignedReal) : SignedReal := ofSize z.im.negative z.angle

/-- The principal root, on the side of the imaginary part. -/
noncomputable def root (z : Cartesian SignedReal) : Cartesian SignedReal :=
  ⟨ofSize false √((‖z.value‖ + z.re.value) / 2),
    ofSize z.im.negative √((‖z.value‖ - z.re.value) / 2)⟩

noncomputable instance : ComplexFunctions SignedReal (Cartesian SignedReal) where
  ofParts := Cartesian.mk
  ofReal := fun x => ⟨x, 0.0⟩
  re := Cartesian.re
  im := Cartesian.im
  modulus := fun z => ofValue false ‖z.value‖
  argument := direction
  cexp := fun z => ⟨ofValue false (Complex.exp z.value).re,
    ofValue z.im.negative (Complex.exp z.value).im⟩
  clog := fun z => ⟨ofValue false (Real.log ‖z.value‖), z.direction⟩
  csqrt := root

variable (z : Cartesian SignedReal)

@[simp] theorem re_value : z.value.re = z.re.value := rfl

@[simp] theorem im_value : z.value.im = z.im.value := rfl

@[simp] theorem value_mul (w : Cartesian SignedReal) : (z * w).value = z.value * w.value := by
  apply Complex.ext
  · change (z.re * w.re - z.im * w.im).value = _
    simp [value]
  · change (z.re * w.im + z.im * w.re).value = _
    simp [value]

/-- The sign of the imaginary part tells a number from its conjugate. -/
theorem value_eq : z.value = if z.im.negative then conj z.raised else z.raised := by
  split
  · rename_i negative
    apply Complex.ext
    · rfl
    · change z.im.value = -|z.im.value|
      rw [abs_of_nonpos (value_nonpos negative), neg_neg]
  · rename_i positive
    apply Complex.ext
    · rfl
    · change z.im.value = |z.im.value|
      rw [abs_of_nonneg (value_nonneg (Bool.eq_false_iff.mpr positive))]

/-! ## The root -/

theorem raised_root : z.root.raised =
    ⟨√((‖z.value‖ + z.re.value) / 2), √((‖z.value‖ - z.re.value) / 2)⟩ := by
  apply Complex.ext
  · exact (value_ofSize (Real.sqrt_nonneg _)).trans (if_neg Bool.false_ne_true)
  · exact abs_value_ofSize (Real.sqrt_nonneg _)

theorem raised_root_mul_self : z.root.raised * z.root.raised = z.raised := by
  have long : |z.re.value| ≤ ‖z.value‖ := Complex.abs_re_le_norm z.value
  obtain ⟨below, above⟩ := abs_le.mp long
  have plus : 0 ≤ (‖z.value‖ + z.re.value) / 2 := by linarith
  have minus : 0 ≤ (‖z.value‖ - z.re.value) / 2 := by linarith
  have size : ‖z.value‖ * ‖z.value‖ = z.re.value * z.re.value + z.im.value * z.im.value := by
    rw [← sq, ← Complex.normSq_eq_norm_sq, Complex.normSq_apply]
    rfl
  have product : √((‖z.value‖ + z.re.value) / 2) * √((‖z.value‖ - z.re.value) / 2) =
      |z.im.value| / 2 := by
    rw [← Real.sqrt_mul plus, Real.sqrt_eq_iff_mul_self_eq (mul_nonneg plus minus) (by positivity)]
    linear_combination (1 / 4 : ℝ) * size - (1 / 4 : ℝ) * abs_mul_abs_self z.im.value
  rw [raised_root]
  apply Complex.ext
  · change √((‖z.value‖ + z.re.value) / 2) * √((‖z.value‖ + z.re.value) / 2) -
      √((‖z.value‖ - z.re.value) / 2) * √((‖z.value‖ - z.re.value) / 2) = z.re.value
    rw [Real.mul_self_sqrt plus, Real.mul_self_sqrt minus]
    ring
  · change √((‖z.value‖ + z.re.value) / 2) * √((‖z.value‖ - z.re.value) / 2) +
      √((‖z.value‖ - z.re.value) / 2) * √((‖z.value‖ + z.re.value) / 2) = |z.im.value|
    linear_combination 2 * product

/-- A root in the right half plane that has the sign of the imaginary part. -/
structure IsPrincipalRoot (z q : Cartesian SignedReal) : Prop where
  right : q.re.negative = false
  side : q.im.negative = z.im.negative
  square : q.value * q.value = z.value

theorem isPrincipalRoot_csqrt : IsPrincipalRoot z (csqrt z) := by
  refine ⟨rfl, rfl, ?_⟩
  have side : (csqrt z : Cartesian SignedReal).im.negative = z.im.negative := rfl
  rw [value_eq, value_eq z, side]
  split
  · rw [← map_mul]
    exact congrArg conj z.raised_root_mul_self
  · exact z.raised_root_mul_self

variable {z}

/-- There is one such root. -/
theorem IsPrincipalRoot.unique {q q' : Cartesian SignedReal} (first : IsPrincipalRoot z q)
    (second : IsPrincipalRoot z q') : q = q' := by
  have right : q.re.negative = q'.re.negative := first.right.trans second.right.symm
  have side : q.im.negative = q'.im.negative := first.side.trans second.side.symm
  have parts : q.re.value = q'.re.value ∧ q.im.value = q'.im.value := by
    rcases mul_self_eq_mul_self_iff.mp (first.square.trans second.square.symm) with same | opposite
    · exact ⟨congrArg Complex.re same, congrArg Complex.im same⟩
    · have re : q.re.value = -q'.re.value := congrArg Complex.re opposite
      have im : q.im.value = -q'.im.value := congrArg Complex.im opposite
      exact ⟨eq_of_eq_neg right re, eq_of_eq_neg side im⟩
  obtain ⟨qre, qim⟩ := q
  obtain ⟨qre', qim'⟩ := q'
  exact (Cartesian.mk.injEq ..).mpr
    ⟨SignedReal.ext_value right parts.1, SignedReal.ext_value side parts.2⟩

theorem isPrincipalRoot_iff (z : Cartesian SignedReal) {q : Cartesian SignedReal} :
    IsPrincipalRoot z q ↔ q = csqrt z := by
  constructor
  · exact fun root => root.unique z.isPrincipalRoot_csqrt
  · rintro rfl
    exact z.isPrincipalRoot_csqrt

/-- The root of a real number lies on the real or on the imaginary axis. -/
theorem value_csqrt_of_nonneg (real : z.im.value = 0) (above : 0 ≤ z.re.value) :
    (csqrt z : Cartesian SignedReal).value = (√z.re.value : ℝ) := by
  have size : ‖z.value‖ = z.re.value := by
    rw [show z.value = (z.re.value : ℝ) from Complex.ext rfl real, Complex.norm_real,
      Real.norm_of_nonneg above]
  have none : √((‖z.value‖ - z.re.value) / 2) = 0 := by simp [size]
  apply Complex.ext
  · change (ofSize false √((‖z.value‖ + z.re.value) / 2)).value = √z.re.value
    rw [value_ofSize (Real.sqrt_nonneg _), size, add_self_div_two]
    rfl
  · change (ofSize z.im.negative √((‖z.value‖ - z.re.value) / 2)).value = 0
    rw [none, value_ofSize le_rfl, neg_zero, ite_self]

theorem value_csqrt_of_nonpos (real : z.im.value = 0) (below : z.re.value ≤ 0) :
    (csqrt z : Cartesian SignedReal).value =
      ⟨0, if z.im.negative then -√(-z.re.value) else √(-z.re.value)⟩ := by
  have size : ‖z.value‖ = -z.re.value := by
    rw [show z.value = (z.re.value : ℝ) from Complex.ext rfl real, Complex.norm_real,
      Real.norm_of_nonpos below]
  have none : √((‖z.value‖ + z.re.value) / 2) = 0 := by simp [size]
  have all : (‖z.value‖ - z.re.value) / 2 = -z.re.value := by
    rw [size]
    ring
  apply Complex.ext
  · change (ofSize false √((‖z.value‖ + z.re.value) / 2)).value = 0
    rw [none, value_ofSize le_rfl, neg_zero, ite_self]
  · change (ofSize z.im.negative √((‖z.value‖ - z.re.value) / 2)).value = _
    rw [all, value_ofSize (Real.sqrt_nonneg _)]

/-! ## The argument -/

variable (z)

theorem angle_nonneg : 0 ≤ z.angle := by
  unfold angle
  split
  · split
    · exact Real.pi_nonneg
    · exact le_rfl
  · exact Complex.arg_nonneg_iff.mpr (abs_nonneg _)

theorem value_direction : z.direction.value = if z.im.negative then -z.angle else z.angle :=
  value_ofSize z.angle_nonneg

theorem raised_eq_zero_iff : z.raised = 0 ↔ z.value = 0 := by
  rw [Complex.ext_iff, Complex.ext_iff]
  exact and_congr Iff.rfl abs_eq_zero

variable {z}

/-- Both parts may be scaled alike. -/
theorem direction_scaled {scale : SignedReal} (positive : 0 < scale.value) :
    (⟨z.re * scale, z.im * scale⟩ : Cartesian SignedReal).direction = z.direction := by
  let scaled : Cartesian SignedReal := ⟨z.re * scale, z.im * scale⟩
  have re := sameSign_mul_of_pos z.re positive
  have im := sameSign_mul_of_pos z.im positive
  have along : scaled.raised = scale.value * z.raised := by
    apply Complex.ext
    · change (z.re * scale).value = _
      rw [SignedReal.value_mul, Complex.re_ofReal_mul, mul_comm]
      rfl
    · change |(z.im * scale).value| = _
      rw [SignedReal.value_mul, Complex.im_ofReal_mul, abs_mul, abs_of_pos positive, mul_comm]
      rfl
  have zero : scaled.value = 0 ↔ z.value = 0 := by
    rw [Complex.ext_iff, Complex.ext_iff]
    exact and_congr re.2 im.2
  have angles : scaled.angle = z.angle := by
    unfold angle
    rw [along, Complex.arg_real_mul _ positive]
    simp only [zero, show scaled.re.negative = z.re.negative from re.1]
  change ofSize scaled.im.negative scaled.angle = ofSize z.im.negative z.angle
  rw [angles, show scaled.im.negative = z.im.negative from im.1]

/-- The argument of a number is twice that of its root. -/
theorem value_direction_eq_two_mul (nonzero : z.value ≠ 0) :
    z.direction.value = 2 * z.root.direction.value := by
  have raised_nonzero : z.root.raised ≠ 0 := by
    intro zero
    refine nonzero (z.raised_eq_zero_iff.mp ?_)
    rw [← z.raised_root_mul_self, zero, zero_mul]
  have root_nonzero : z.root.value ≠ 0 := fun zero =>
    raised_nonzero (z.root.raised_eq_zero_iff.mpr zero)
  have right : |z.root.raised.arg| ≤ Real.pi / 2 := by
    rw [Complex.abs_arg_le_pi_div_two_iff, raised_root]
    exact Real.sqrt_nonneg _
  have upper : 0 ≤ z.root.raised.arg := Complex.arg_nonneg_iff.mpr (abs_nonneg _)
  have angles : z.angle = 2 * z.root.angle := by
    unfold angle
    rw [if_neg nonzero, if_neg root_nonzero, ← z.raised_root_mul_self,
      Complex.arg_mul raised_nonzero raised_nonzero]
    · ring
    · have := le_of_abs_le right
      constructor
      · linarith [Real.pi_pos]
      · linarith
  have side : z.root.im.negative = z.im.negative := rfl
  rw [value_direction, value_direction, side, angles]
  split
  · ring
  · rfl

/-- On the cut the sign of the zero imaginary part tells the side. -/
theorem value_direction_of_neg (real : z.im.value = 0) (below : z.re.value < 0) :
    z.direction.value = if z.im.negative then -Real.pi else Real.pi := by
  have nonzero : z.value ≠ 0 := fun zero => below.ne (congrArg Complex.re zero)
  have angle : z.angle = Real.pi := by
    unfold angle
    rw [if_neg nonzero]
    refine Complex.arg_eq_pi_iff.mpr ⟨below, ?_⟩
    change |z.im.value| = 0
    rw [real, abs_zero]
  rw [value_direction, angle]

end Cartesian

end LatticeGreen
