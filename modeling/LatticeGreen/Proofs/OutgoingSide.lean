import LatticeGreen.Distant
import LatticeGreen.Proofs.SignedZeros

/-!
# The outgoing side

For a wavenumber with a positive real part and no negative imaginary part, the squared propagation
constant of every order has a negative imaginary part, or a negative zero. So its root lies in the
closed quadrant of outgoing and decaying waves, and a propagating order of a real wavenumber has its
root below zero on the imaginary axis. The argument of the exponential integral lies on the same
side of the cut: the integral goes on with the logarithm of that root.
-/
namespace LatticeGreen
open SignedReal Cartesian

/-- The propagation constant of a wave that goes out or decays. -/
structure Cartesian.IsOutgoing (q : Cartesian SignedReal) : Prop where
  right : 0 ≤ q.re.value
  lower : q.im.value ≤ 0
  side : q.im.negative = true

variable {k : Cartesian SignedReal}

/-! ## The squared propagation constant -/

theorem value_transverseSquare (p2 : SignedReal) (k : Cartesian SignedReal) :
    (transverseSquare p2 k : Cartesian SignedReal).value = p2.value - k.value * k.value := by
  have square := Cartesian.value_mul k k
  apply Complex.ext
  · change (p2 - (k * k).re).value = _
    rw [← square, value_sub, Complex.sub_re, Complex.ofReal_re]
    rfl
  · change (-(k * k).im).value = _
    rw [← square, value_neg, Complex.sub_im, Complex.ofReal_im, zero_sub]
    rfl

/-- Both products in the imaginary part of the square are positive or positive zeros. -/
theorem negative_im_square (forward : 0 < k.re.value) (damped : k.im.negative = false) :
    (k * k).im.negative = false := by
  have ahead : k.re.negative = false := negative_of_pos forward
  refine negative_add ?_ ?_
  · rw [negative_mul, ahead, damped, Bool.xor_false]
  · rw [negative_mul, ahead, damped, Bool.xor_false]

theorem negative_im_transverseSquare (forward : 0 < k.re.value) (damped : k.im.negative = false)
    (p2 : SignedReal) : (transverseSquare p2 k : Cartesian SignedReal).im.negative = true := by
  change (-(k * k).im).negative = true
  rw [negative_neg, negative_im_square forward damped, Bool.not_false]

/-! ## Its root -/

/-- The root of a number with a negative imaginary part, or a negative zero. -/
theorem Cartesian.isOutgoing_csqrt {z : Cartesian SignedReal} (below : z.im.negative = true) :
    (csqrt z : Cartesian SignedReal).IsOutgoing := by
  have root := z.isPrincipalRoot_csqrt
  have side := root.side.trans below
  exact ⟨value_nonneg root.right, value_nonpos side, side⟩

/-- For a real wavenumber the root lies on the negative imaginary axis where the order propagates,
and on the positive real axis where it is evanescent. -/
theorem value_csqrt_transverseSquare_of_real (forward : 0 < k.re.value)
    (damped : k.im.negative = false) (real : k.im.value = 0) (p2 : SignedReal) :
    (p2.value < k.re.value ^ 2 → (csqrt (transverseSquare p2 k) : Cartesian SignedReal).value =
        -(√(k.re.value ^ 2 - p2.value) * Complex.I)) ∧
      (k.re.value ^ 2 ≤ p2.value → (csqrt (transverseSquare p2 k) : Cartesian SignedReal).value =
        √(p2.value - k.re.value ^ 2)) := by
  have value := value_transverseSquare p2 k
  have line : k.value = k.re.value := Complex.ext rfl real
  have re : (transverseSquare p2 k : Cartesian SignedReal).re.value =
      p2.value - k.re.value ^ 2 := by
    have part := congrArg Complex.re value
    rw [line] at part
    simpa [sq] using part
  have im : (transverseSquare p2 k : Cartesian SignedReal).im.value = 0 := by
    have part := congrArg Complex.im value
    rw [line] at part
    simpa using part
  constructor
  · intro propagating
    rw [value_csqrt_of_nonpos im (by linarith), re,
      if_pos (negative_im_transverseSquare forward damped p2), neg_sub]
    apply Complex.ext <;> simp
  · intro evanescent
    rw [value_csqrt_of_nonneg im (by linarith), re]

/-- In a difference of complex numbers the imaginary part of a real wavenumber's square is taken
from a positive zero, which leaves a positive zero: orders that propagate would come in. -/
theorem value_csqrt_difference_of_real (real : k.im.value = 0) {p2 : SignedReal}
    (propagating : p2.value < k.re.value ^ 2) :
    (csqrt (ofReal p2 - k * k) : Cartesian SignedReal).value =
      √(k.re.value ^ 2 - p2.value) * Complex.I := by
  have re : (ofReal p2 - k * k : Cartesian SignedReal).re.value = p2.value - k.re.value ^ 2 := by
    change (p2 - (k.re * k.re - k.im * k.im)).value = _
    simp [real, sq]
  have im : (ofReal p2 - k * k : Cartesian SignedReal).im.value = 0 := by
    change ((0.0 : SignedReal) - (k.re * k.im + k.im * k.re)).value = 0
    norm_num [real]
  have above : (ofReal p2 - k * k : Cartesian SignedReal).im.negative = false :=
    negative_add_of_nonneg (negative_ofValue_of_nonneg (by norm_num))
      ((SignedReal.value_add _ _).symm.trans im).ge
  rw [value_csqrt_of_nonpos im (by linarith), re, above, if_neg Bool.false_ne_true, neg_sub]
  apply Complex.ext <;> simp

/-- What is told of the squared propagation constant of an order: on which side of the cut it lies,
and where its root does. -/
structure OutgoingOrder (k : Cartesian SignedReal) (p2 : SignedReal) (kt2 : Cartesian SignedReal) :
    Prop where
  value : kt2.value = p2.value - k.value * k.value
  below : kt2.im.negative = true
  root : ∀ q, IsPrincipalRoot kt2 q ↔ q = csqrt kt2
  outgoing : (csqrt kt2).IsOutgoing
  propagating : k.im.value = 0 → p2.value < k.re.value ^ 2 →
    (csqrt kt2).value = -(√(k.re.value ^ 2 - p2.value) * Complex.I)
  evanescent : k.im.value = 0 → k.re.value ^ 2 ≤ p2.value →
    (csqrt kt2).value = √(p2.value - k.re.value ^ 2)

theorem outgoingOrder_transverseSquare (forward : 0 < k.re.value) (damped : k.im.negative = false)
    (p2 : SignedReal) : OutgoingOrder k p2 (transverseSquare p2 k) where
  value := value_transverseSquare p2 k
  below := negative_im_transverseSquare forward damped p2
  root := fun _ => isPrincipalRoot_iff _
  outgoing := isOutgoing_csqrt (negative_im_transverseSquare forward damped p2)
  propagating := fun real =>
    (value_csqrt_transverseSquare_of_real forward damped real p2).1
  evanescent := fun real =>
    (value_csqrt_transverseSquare_of_real forward damped real p2).2

/-! ## The argument of the exponential integral -/

/-- The logarithm of `x` and the root of `kt2` lie on one side of the cut: `x` has the signs of
`kt2`, and the imaginary part of its logarithm is twice the argument of the root, also where both
lie on the cut. The power series of the exponential integral begins with that logarithm. -/
structure SameSideOfCut (kt2 x : Cartesian SignedReal) : Prop where
  re : SameSign x.re kt2.re
  im : SameSign x.im kt2.im
  side : (clog x).im.negative = (csqrt kt2).im.negative
  twice : kt2.value ≠ 0 → (clog x).im.value = 2 * (argument (csqrt kt2)).value
  cut : kt2.im.value = 0 → kt2.re.value < 0 →
    (clog x).im.value = if kt2.im.negative then -Real.pi else Real.pi
  series : (ExponentialIntegral.PowerSeries.initial x).value.im.value = -(clog x).im.value

/-- Both parts are scaled by one positive number. -/
theorem sameSideOfCut_scaledArgument (kt2 : Cartesian SignedReal) {eta : SignedReal}
    (split : 0 < eta.value) : SameSideOfCut kt2 (LineTransform.scaledArgument kt2 eta) := by
  have positive : 0 < ((0.25 : SignedReal) / (eta * eta)).value := by
    rw [SignedReal.value_div, SignedReal.value_mul, value_ofScientific]
    positivity
  have log : (clog (LineTransform.scaledArgument kt2 eta)).im = kt2.direction :=
    direction_scaled positive
  refine
    { re := sameSign_mul_of_pos kt2.re positive
      im := sameSign_mul_of_pos kt2.im positive
      side := ?_
      twice := fun nonzero => ?_
      cut := fun real below => ?_
      series := ?_ }
  · rw [log]
    rfl
  · rw [log]
    exact value_direction_eq_two_mul nonzero
  · rw [log]
    exact value_direction_of_neg real below
  · change ((0.0 : SignedReal) - (clog (LineTransform.scaledArgument kt2 eta)).im).value = _
    rw [value_sub, value_ofScientific]
    norm_num

/-! ## Every order -/

/-- The branches for every order of a wavenumber with a positive real part and no negative imaginary
part. The squared propagation constant has a negative imaginary part, or a negative zero, and its
principal root goes out or decays; for a real wavenumber it lies on the negative imaginary axis or
on the positive real one. This holds entry by entry of arrays, and of the propagation constants of a
plane. Scaled for the exponential integral, the constant stays below the cut, and the logarithm goes
on with the root. -/
theorem outgoing_branches (forward : 0 < k.re.value) (damped : k.im.negative = false) :
    (∀ p2, OutgoingOrder k p2 (transverseSquare p2 k)) ∧
      (∀ a : RealArray SignedReal, ∀ kt2 ∈ (a.map (transverseSquare · k)).entries,
        ∃ p2 ∈ a.entries, OutgoingOrder k p2 kt2) ∧
      (∀ p : Vec2 SignedReal, (PlaneOrder.propagation k p).IsOutgoing) ∧
      ∀ p2 eta : SignedReal, 0 < eta.value →
        let kt2 : Cartesian SignedReal := transverseSquare p2 k
        let x : Cartesian SignedReal := LineTransform.scaledArgument kt2 eta
        x.im.negative = true ∧ (clog x).im.negative = true ∧ (csqrt kt2).im.negative = true ∧
          SameSideOfCut kt2 x := by
  have orders := outgoingOrder_transverseSquare forward damped
  refine ⟨orders, fun a kt2 member => ?_, fun p => (orders _).outgoing, fun p2 eta split => ?_⟩
  · obtain ⟨p2, listed, rfl⟩ := List.mem_map.mp member
    exact ⟨p2, listed, orders p2⟩
  · intro kt2 x
    have same := sameSideOfCut_scaledArgument kt2 split
    have root := (orders p2).outgoing.side
    exact ⟨same.im.1.trans (orders p2).below, same.side.trans root, root, same⟩

/-- Of the wavenumber 2 the order with the square 1 propagates, just below the cut. -/
theorem outgoing_branches_of_two :
    let k : Cartesian SignedReal := ⟨2.0, 0.0⟩
    let kt2 : Cartesian SignedReal := transverseSquare 1.0 k
    let x : Cartesian SignedReal := LineTransform.scaledArgument kt2 0.5
    0 < k.re.value ∧ k.im.negative = false ∧ kt2.im.negative = true ∧ kt2.value = -3 ∧
      (csqrt kt2).value = -(√3 * Complex.I) ∧ (clog x).im.value = -Real.pi := by
  intro k kt2 x
  have two : k.re.value = 2 := (value_ofScientific _ _ _).trans (by norm_num)
  have one : (1.0 : SignedReal).value = 1 := (value_ofScientific _ _ _).trans (by norm_num)
  have half : (0.5 : SignedReal).value = 0.5 := value_ofScientific _ _ _
  have zero : k.im.value = 0 := (value_ofScientific _ _ _).trans (by norm_num)
  have forward : 0 < k.re.value := by norm_num [two]
  have damped : k.im.negative = false := negative_ofValue_of_nonneg (by norm_num)
  obtain ⟨orders, -, -, scaled⟩ := outgoing_branches forward damped
  have order : OutgoingOrder k 1.0 kt2 := orders 1.0
  have below : kt2.im.negative = true := order.below
  have line : k.value = 2 := by
    apply Complex.ext
    · exact two
    · exact zero
  have minus : kt2.value = -3 := by
    rw [order.value, line, one]
    norm_num
  obtain ⟨-, -, -, same⟩ := scaled 1.0 0.5 (by norm_num [half])
  refine ⟨forward, damped, below, minus, ?_, ?_⟩
  · rw [order.propagating zero (by norm_num [one, two]), one, two]
    norm_num
  · rw [same.cut, if_pos below]
    · exact (congrArg Complex.im minus).trans (by norm_num)
    · exact (congrArg Complex.re minus).trans_lt (by norm_num)

end LatticeGreen
