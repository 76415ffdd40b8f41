import LatticeGreen.Proofs.CountedLoops
import Mathlib

/-!
# The continued fraction of the exponential integral

The modified Lentz method goes from one convergent of a continued fraction to the next by two
ratios, of successive numerators and of successive denominators. For the fraction of the exponential
integral these ratios, and the tails of the fraction, alternate between two half planes, one around
the root of the argument and its mirror image, so that none of them vanishes. The ratio of
numerators starts from a stand-in for zero and is in its half plane from the second step on.
-/
namespace LatticeGreen
open Complex (exp)
open GenContFract (convs'Aux)

/-! ## Fractions without vanishing tails -/

namespace EndlessFraction
variable {K : Type} [Field K]

/-- A head and partial fractions without end. -/
def ofStream (head : K) (pairs : Stream' (GenContFract.Pair K)) : GenContFract K := ⟨head, pairs⟩

/-- The partial fractions after the first `m`, cut after `n` of them. -/
def below (pairs : Stream' (GenContFract.Pair K)) (m n : ℕ) : K :=
  convs'Aux (Stream'.Seq.ofStream (pairs.drop m)) n

variable (head : K) (pairs : Stream' (GenContFract.Pair K))

theorem below_succ (m n : ℕ) :
    below pairs m (n + 1) = (pairs.get m).a / ((pairs.get m).b + below pairs (m + 1) n) := by
  have first : (Stream'.Seq.ofStream (pairs.drop m)).head = some (pairs.get m) := by
    change some ((pairs.drop m).get 0) = _
    rw [Stream'.get_drop]
    rfl
  have others : (Stream'.Seq.ofStream (pairs.drop m)).tail =
      Stream'.Seq.ofStream (pairs.drop (m + 1)) := by
    rw [← Stream'.tail_drop']
    rfl
  rw [below, GenContFract.convs'Aux_succ_some first, others]
  rfl

theorem contsAux_add_two (m : ℕ) :
    let g := ofStream head pairs
    g.contsAux (m + 2) = ⟨
      (pairs.get m).b * (g.contsAux (m + 1)).a + (pairs.get m).a * (g.contsAux m).a,
      (pairs.get m).b * (g.contsAux (m + 1)).b + (pairs.get m).a * (g.contsAux m).b⟩ :=
  GenContFract.contsAux_recurrence rfl rfl rfl

/-- Later convergents from earlier continuants: the fractions below come in as one number. -/
theorem convs_add (nonvanishing : ∀ m n, (pairs.get m).b + below pairs (m + 1) n ≠ 0) (m n : ℕ) :
    let g := ofStream head pairs
    g.convs (m + n) = ((g.contsAux (m + 1)).a + below pairs m n * (g.contsAux m).a) /
      ((g.contsAux (m + 1)).b + below pairs m n * (g.contsAux m).b) := by
  intro g
  induction n generalizing m with
  | zero =>
    have nothing : below pairs m 0 = 0 := rfl
    simp only [nothing, zero_mul, add_zero]
    rfl
  | succ n ih =>
    have divisor := nonvanishing m n
    have merge : ∀ x y : K, (pairs.get m).b * x + (pairs.get m).a * y + below pairs (m + 1) n * x =
        ((pairs.get m).b + below pairs (m + 1) n) * (x + below pairs m (n + 1) * y) := by
      intro x y
      rw [below_succ]
      field_simp
      ring
    have shift : m + (n + 1) = m + 1 + n := by omega
    rw [shift, ih (m + 1), contsAux_add_two, merge, merge, mul_div_mul_left _ _ divisor]

/-- The quotients of the continuants are the cut fractions, if no tail vanishes. -/
theorem convs_eq_convs' (nonvanishing : ∀ m n, (pairs.get m).b + below pairs (m + 1) n ≠ 0)
    (n : ℕ) :
    (ofStream head pairs).convs n = (ofStream head pairs).convs' n := by
  have cut := convs_add head pairs nonvanishing 0 n
  simp only [Nat.zero_add, GenContFract.first_contAux_eq_h_one,
    GenContFract.zeroth_contAux_eq_one_zero, mul_one, mul_zero, add_zero, div_one] at cut
  exact cut

end EndlessFraction

namespace ExponentialIntegral
open EndlessFraction

/-! ## The fraction -/

/-- `exp (-z)`, then 1, 1, 2, 2, 3, ... -/
noncomputable def partialNumerator (z : ℂ) (i : ℕ) : ℂ := if i = 1 then exp (-z) else (i / 2 : ℕ)

/-- `z` and 1 in turn. -/
noncomputable def partialDenominator (z : ℂ) (i : ℕ) : ℂ := if Odd i then z else 1

/-- The partial fractions, the first of which has the number one. -/
noncomputable def partialFractions (z : ℂ) : Stream' (GenContFract.Pair ℂ) := fun i =>
  ⟨partialNumerator z (i + 1), partialDenominator z (i + 1)⟩

/-- `exp (-z) / (z + 1 / (1 + 1 / (z + 2 / (1 + 2 / (z + ...)))))`. -/
noncomputable def fraction (z : ℂ) : GenContFract ℂ := ofStream 0 (partialFractions z)

namespace Lentz

theorem numerator_exact (z : ℂ) (j : ℕ) : numerator (R := ℝ) z j = partialNumerator z j := by
  unfold numerator partialNumerator
  split
  · rfl
  · exact Complex.ofReal_natCast _

theorem denominator_exact (z : ℂ) (j : ℕ) : denominator (R := ℝ) z j = partialDenominator z j := by
  have one : (((1.0 : ℝ) : ℂ)) = 1 := by norm_num
  unfold denominator partialDenominator
  simp only [ofReal_exact, one, Nat.odd_iff]

theorem nonzero_of_ne {z : ℂ} (apart : z ≠ 0) : nonzero (R := ℝ) z = z := by
  have differs : (z == (zeroC : ℂ)) = false := by
    rw [beq_eq_false_iff_ne, zeroC_exact]
    exact apart
  rw [nonzero, differs, if_neg Bool.false_ne_true]

end Lentz

theorem partialNumerator_add_two (z : ℂ) (i : ℕ) :
    partialNumerator z (i + 2) = (((i + 2) / 2 : ℕ) : ℝ) := by
  unfold partialNumerator
  rw [if_neg (by omega), Complex.ofReal_natCast]

/-! ## The two half planes -/

/-- The root of the argument and its conjugate in turn. -/
noncomputable def direction (z : ℂ) (i : ℕ) : ℂ :=
  if Odd i then starRingEnd ℂ (csqrt z) else csqrt z

/-- A number lies in the half plane of the partial denominators of one parity. -/
def Faces (z : ℂ) (i : ℕ) (w : ℂ) : Prop := 0 < (w * direction z i).re

theorem direction_succ (z : ℂ) (i : ℕ) : direction z (i + 1) = starRingEnd ℂ (direction z i) := by
  unfold direction
  rcases Nat.even_or_odd i with even | odd
  · rw [if_pos even.add_one, if_neg (Nat.not_odd_iff_even.mpr even)]
  · rw [if_pos odd, if_neg (Nat.not_odd_iff_even.mpr odd.add_one), Complex.conj_conj]

theorem direction_eq_conj_succ (z : ℂ) (i : ℕ) :
    direction z i = starRingEnd ℂ (direction z (i + 1)) := by
  rw [direction_succ, Complex.conj_conj]

theorem Faces.ne_zero {z w : ℂ} {i : ℕ} (faces : Faces z i w) : w ≠ 0 := by
  rintro rfl
  simp [Faces] at faces

/-- A positive multiple of an inverse has the direction of the conjugate. -/
theorem re_div_mul_conj_nonneg {w t : ℂ} (ahead : 0 < (w * t).re) {r : ℝ} (nonnegative : 0 ≤ r) :
    0 ≤ (r / w * starRingEnd ℂ t).re := by
  have turned : r / w * starRingEnd ℂ t =
      (r * (Complex.normSq w)⁻¹ : ℝ) * starRingEnd ℂ (w * t) := by
    rw [div_eq_mul_inv, Complex.inv_def, map_mul]
    push_cast
    ring
  rw [turned, Complex.re_ofReal_mul, Complex.conj_re]
  have := Complex.normSq_nonneg w
  positivity

section
variable {z : ℂ} (off : z ∈ Complex.slitPlane)
include off

/-- Off the negative axis each partial denominator lies in its half plane. -/
theorem faces_partialDenominator (i : ℕ) : Faces z i (partialDenominator z i) := by
  have root : 0 < (csqrt z : ℂ).re := re_csqrt_pos off
  unfold Faces partialDenominator direction
  split
  · -- The argument is the square of its root, and the root times its conjugate is positive.
    have square : z * starRingEnd ℂ (csqrt z) = (Complex.normSq (csqrt z) : ℝ) * csqrt z := by
      nth_rewrite 1 [← sq_csqrt z]
      rw [← Complex.mul_conj]
      ring
    have nonzero : (csqrt z : ℂ) ≠ 0 := by
      intro zero
      rw [zero] at root
      exact root.false
    rw [square, Complex.re_ofReal_mul]
    exact mul_pos (Complex.normSq_pos.mpr nonzero) root
  · rwa [one_mul]

theorem Faces.add_div {i j : ℕ} {w : ℂ} (faces : Faces z j w)
    (mirrored : direction z i = starRingEnd ℂ (direction z j)) {r : ℝ} (nonnegative : 0 ≤ r) :
    Faces z i (partialDenominator z i + r / w) := by
  have below := re_div_mul_conj_nonneg faces nonnegative
  have own := faces_partialDenominator off i
  rw [← mirrored] at below
  unfold Faces at own ⊢
  rw [add_mul, Complex.add_re]
  linarith

/-- No tail of the fraction vanishes. -/
theorem faces_below (m n : ℕ) :
    Faces z (m + 1) (partialDenominator z (m + 1) + below (partialFractions z) (m + 1) n) := by
  induction n generalizing m with
  | zero =>
    have nothing : below (partialFractions z) (m + 1) 0 = 0 := rfl
    rw [nothing, add_zero]
    exact faces_partialDenominator off (m + 1)
  | succ n ih =>
    have next : below (partialFractions z) (m + 1) (n + 1) = partialNumerator z (m + 2) /
        (partialDenominator z (m + 2) + below (partialFractions z) (m + 2) n) := below_succ _ _ _
    rw [next, partialNumerator_add_two]
    exact Faces.add_div off (ih (m + 1)) (direction_eq_conj_succ z (m + 1)) (Nat.cast_nonneg _)

end

/-! ## Ratios of continuants -/

/-- A ratio of successive continuants at the level `j + 1`, from its value at the level one. -/
noncomputable def ratio (z start : ℂ) : ℕ → ℂ
  | 0 => start
  | j + 1 => partialDenominator z (j + 2) + partialNumerator z (j + 2) / ratio z start j

/-- Once a ratio lies in its half plane, all later ones do. -/
theorem Faces.ratio_succ {z start : ℂ} (off : z ∈ Complex.slitPlane) {j : ℕ}
    (faces : Faces z (j + 1) (ratio z start j)) : Faces z (j + 2) (ratio z start (j + 1)) := by
  rw [ratio, partialNumerator_add_two]
  exact Faces.add_div off faces (direction_succ z (j + 1)) (Nat.cast_nonneg _)

theorem Faces.ratio_add {z start : ℂ} (off : z ∈ Complex.slitPlane) {i : ℕ}
    (faces : Faces z (i + 1) (ratio z start i)) (n : ℕ) :
    Faces z (i + n + 1) (ratio z start (i + n)) := by
  induction n with
  | zero => exact faces
  | succ n ih => exact ih.ratio_succ off

/-- The ratio of denominators starts from the argument. -/
theorem faces_ratio_denominators {z : ℂ} (off : z ∈ Complex.slitPlane) (j : ℕ) :
    Faces z (j + 1) (ratio z z j) := by
  have start : Faces z (0 + 1) (ratio z z 0) := by
    have own := faces_partialDenominator off 1
    rwa [partialDenominator, if_pos odd_one] at own
  have later := start.ratio_add off j
  rwa [Nat.zero_add] at later

/-! ## Where the fraction is asked for -/

/-- The arguments between the radii 5 and 30 that are not near the negative axis. -/
structure IsModerate (z : ℂ) : Prop where
  outer : 5 ≤ ‖z‖
  inner : ‖z‖ < 30
  apart : 0.2 ≤ |(|z.arg| - Real.pi)|

/-- What the ratio of numerators starts from. -/
noncomputable def firstRatio (z : ℂ) : ℂ := z + exp (-z) / 1e-30

namespace IsModerate
variable {z : ℂ} (moderate : IsModerate z)
include moderate

theorem ne_zero : z ≠ 0 := norm_pos_iff.mp (by linarith [moderate.outer])

theorem abs_arg_le : |z.arg| ≤ Real.pi - 0.2 := by
  have apart := moderate.apart
  rw [abs_of_nonpos (sub_nonpos.mpr (Complex.abs_arg_le_pi z))] at apart
  linarith

theorem mem_slitPlane : z ∈ Complex.slitPlane := by
  refine Complex.mem_slitPlane_iff_arg.mpr ⟨fun cut => ?_, moderate.ne_zero⟩
  have bound := moderate.abs_arg_le
  rw [cut, abs_of_pos Real.pi_pos] at bound
  linarith

/-- The root stays away from the imaginary axis. -/
theorem norm_lt_re_csqrt : 0.09 * ‖(csqrt z : ℂ)‖ < (csqrt z : ℂ).re := by
  have cosine : 0.09 < Real.cos (z.arg / 2) := by
    have sine := Real.sin_gt_sub_cube (x := 0.1) (by norm_num)
    have angle : |z.arg / 2| ≤ Real.pi / 2 - 0.1 := by
      rw [abs_div, abs_two]
      linarith [moderate.abs_arg_le]
    have falling : Real.cos (Real.pi / 2 - 0.1) ≤ Real.cos |z.arg / 2| :=
      Real.cos_le_cos_of_nonneg_of_le_pi (abs_nonneg _) (by linarith [Real.pi_pos]) angle
    rw [Real.cos_pi_div_two_sub, Real.cos_abs] at falling
    norm_num at sine ⊢
    linarith
  rw [csqrt_exact, Complex.cpow_def_of_ne_zero moderate.ne_zero, Complex.norm_exp, Complex.exp_re,
    im_log_mul_half, mul_comm]
  exact mul_lt_mul_of_pos_left cosine (Real.exp_pos _)

/-- The stand-in for zero makes the first ratio huge. -/
theorem lt_norm_firstRatio : 20 < ‖firstRatio z‖ := by
  have small : Real.exp 30 < 1e14 := by
    have base : Real.exp 1 < 2.72 := Real.exp_one_lt_d9.trans (by norm_num)
    calc Real.exp 30 = Real.exp 1 ^ 30 := by rw [← Real.exp_nat_mul]; norm_num
      _ < 2.72 ^ 30 := by gcongr
      _ < 1e14 := by norm_num
  have weight : 1e-14 < ‖exp (-z)‖ := by
    have leftmost : -30 ≤ -z.re := by linarith [Complex.re_le_norm z, moderate.inner]
    rw [Complex.norm_exp, Complex.neg_re]
    calc (1e-14 : ℝ) = (1e14)⁻¹ := by norm_num
      _ < (Real.exp 30)⁻¹ := by gcongr
      _ = Real.exp (-30) := (Real.exp_neg 30).symm
      _ ≤ Real.exp (-z.re) := by gcongr
  have quotient : ‖exp (-z) / 1e-30‖ = 1e30 * ‖exp (-z)‖ := by
    rw [norm_div]
    norm_num
    ring
  have reverse := norm_sub_le_norm_add (exp (-z) / 1e-30) z
  rw [quotient, add_comm] at reverse
  have inner := moderate.inner
  unfold firstRatio
  norm_num at weight reverse ⊢
  linarith

/-- From the second level on the ratio of numerators lies in its half plane, the more so the larger
the first ratio. -/
theorem faces_ratio_numerators (j : ℕ) : Faces z (j + 2) (ratio z (firstRatio z) (j + 1)) := by
  have start : Faces z (1 + 1) (ratio z (firstRatio z) 1) := by
    have huge := moderate.lt_norm_firstRatio
    have root := moderate.norm_lt_re_csqrt
    have second : ratio z (firstRatio z) 1 = 1 + 1 / firstRatio z := by
      norm_num [ratio, partialDenominator, partialNumerator]
    have upright : direction z (1 + 1) = csqrt z := if_neg (by decide)
    have small : ‖1 / firstRatio z * csqrt z‖ ≤ 0.05 * ‖(csqrt z : ℂ)‖ := by
      rw [norm_mul, norm_div, norm_one]
      gcongr
      rw [div_le_iff₀ (by linarith)]
      linarith
    have bound := (Complex.abs_re_le_norm (1 / firstRatio z * csqrt z)).trans small
    have above := (abs_le.mp bound).1
    unfold Faces
    rw [second, upright, add_mul, one_mul, Complex.add_re]
    linarith [norm_nonneg (csqrt z : ℂ)]
  have later := start.ratio_add moderate.mem_slitPlane j
  rwa [Nat.add_comm 1 j] at later

theorem ratio_numerators_ne_zero (j : ℕ) : ratio z (firstRatio z) j ≠ 0 := by
  cases j with
  | zero =>
    have huge := moderate.lt_norm_firstRatio
    change firstRatio z ≠ 0
    exact norm_pos_iff.mp (by linarith)
  | succ j => exact (moderate.faces_ratio_numerators j).ne_zero

end IsModerate

/-! ## Continuants -/

/-- The fraction that the method starts from the stand-in for zero. -/
noncomputable def shiftedFraction (z : ℂ) : GenContFract ℂ := ofStream 1e-30 (partialFractions z)

theorem convs_zero (z : ℂ) : (shiftedFraction z).convs 0 = 1e-30 := GenContFract.zeroth_conv_eq_h

/-- Its numerators and denominators, from one and zero on. -/
noncomputable def continuants (z : ℂ) (j : ℕ) : GenContFract.Pair ℂ :=
  (shiftedFraction z).contsAux j

theorem continuants_add_two (z : ℂ) (j : ℕ) : continuants z (j + 2) =
    ⟨partialDenominator z (j + 1) * (continuants z (j + 1)).a +
        partialNumerator z (j + 1) * (continuants z j).a,
      partialDenominator z (j + 1) * (continuants z (j + 1)).b +
        partialNumerator z (j + 1) * (continuants z j).b⟩ :=
  contsAux_add_two 1e-30 (partialFractions z) j

theorem continuants_two (z : ℂ) : continuants z 2 = ⟨firstRatio z * 1e-30, z⟩ := by
  have first : continuants z 1 = ⟨1e-30, 1⟩ := rfl
  have zeroth : continuants z 0 = ⟨1, 0⟩ := rfl
  rw [continuants_add_two, first, zeroth]
  norm_num [partialDenominator, partialNumerator, firstRatio]
  ring

/-- Ratios that start right are the ratios of all successive continuants. -/
theorem eq_ratio_mul {z start : ℂ} (regular : ∀ j, ratio z start j ≠ 0) {x : ℕ → ℂ}
    (recurrence : ∀ j, x (j + 2) =
      partialDenominator z (j + 1) * x (j + 1) + partialNumerator z (j + 1) * x j)
    (second : x 2 = start * x 1) (j : ℕ) : x (j + 2) = ratio z start j * x (j + 1) := by
  induction j with
  | zero => exact second
  | succ j ih =>
    have previous : x (j + 1) = x (j + 2) / ratio z start j := by
      rw [ih, mul_div_cancel_left₀ _ (regular j)]
    rw [recurrence (j + 1), previous, ratio]
    ring

section
variable {z : ℂ} (moderate : IsModerate z)
include moderate

theorem numerator_succ (j : ℕ) :
    (continuants z (j + 2)).a = ratio z (firstRatio z) j * (continuants z (j + 1)).a :=
  eq_ratio_mul (x := fun i => (continuants z i).a) moderate.ratio_numerators_ne_zero
    (fun i => congrArg GenContFract.Pair.a (continuants_add_two z i))
    (congrArg GenContFract.Pair.a (continuants_two z)) j

theorem denominator_succ (j : ℕ) :
    (continuants z (j + 2)).b = ratio z z j * (continuants z (j + 1)).b := by
  refine eq_ratio_mul (x := fun i => (continuants z i).b)
    (fun i => (faces_ratio_denominators moderate.mem_slitPlane i).ne_zero)
    (fun i => congrArg GenContFract.Pair.b (continuants_add_two z i)) ?_ j
  exact (congrArg GenContFract.Pair.b (continuants_two z)).trans (mul_one z).symm

/-- A convergent is the one before it times two ratios. -/
theorem convs_succ (j : ℕ) : (shiftedFraction z).convs (j + 1) =
    (shiftedFraction z).convs j * (ratio z (firstRatio z) j * (ratio z z j)⁻¹) := by
  change (continuants z (j + 2)).a / (continuants z (j + 2)).b =
    (continuants z (j + 1)).a / (continuants z (j + 1)).b * _
  rw [numerator_succ moderate, denominator_succ moderate]
  ring

end

/-! ## The method -/

namespace Lentz

/-- The state after some iterations. -/
noncomputable def stateAfter (tolerance : ℝ) (z : ℂ) : ℕ → Lentz ℂ :=
  CountedLoop.stateAfter (fun j s => s.step tolerance z j) (initial (R := ℝ))

theorem initial_exact : (initial (R := ℝ) : Lentz ℂ) = ⟨1e-30, 1e-30, 0, 0⟩ := by
  have tiny_exact : (tiny (R := ℝ) : ℂ) = 1e-30 := by norm_num [tiny]
  rw [initial, tiny_exact, zeroC_exact]

/-- What an iteration divides by, and what its guards compare with zero. -/
structure Unguarded (z : ℂ) (j : ℕ) (s : Lentz ℂ) : Prop where
  divisor : s.c ≠ 0
  c : denominator (R := ℝ) z j + numerator (R := ℝ) z j / s.c ≠ 0
  d : denominator (R := ℝ) z j + numerator (R := ℝ) z j * s.d ≠ 0

/-- An iteration whose guards do not fire. -/
theorem Unguarded.step {z : ℂ} {j : ℕ} {s : Lentz ℂ} (unguarded : s.Unguarded z j) (tolerance : ℝ) :
    let c := partialDenominator z j + partialNumerator z j / s.c
    let d := (partialDenominator z j + partialNumerator z j * s.d)⁻¹
    ∃ streak, s.step tolerance z j = ⟨s.value * (c * d), c, d, streak⟩ := by
  have one : (((1.0 : ℝ) : ℂ)) = 1 := by norm_num
  obtain ⟨-, c, d⟩ := unguarded
  rw [numerator_exact, denominator_exact] at c d
  simp only [Lentz.step, numerator_exact, denominator_exact, nonzero_of_ne c, nonzero_of_ne d,
    ofReal_exact, one, one_div]
  exact ⟨_, rfl⟩

section
variable {z : ℂ} (moderate : IsModerate z)
include moderate

theorem unguarded_initial : (initial (R := ℝ) : Lentz ℂ).Unguarded z 1 := by
  rw [initial_exact]
  refine ⟨by norm_num, ?_, ?_⟩
  · rw [numerator_exact, denominator_exact]
    exact moderate.ratio_numerators_ne_zero 0
  · rw [mul_zero, add_zero]
    exact moderate.ne_zero

/-- The guards see the next two ratios. -/
theorem unguarded_of_ratios {s : Lentz ℂ} {j : ℕ} (c : s.c = ratio z (firstRatio z) j)
    (d : s.d = (ratio z z j)⁻¹) : s.Unguarded z (j + 2) := by
  refine ⟨?_, ?_, ?_⟩
  · rw [c]
    exact moderate.ratio_numerators_ne_zero j
  · rw [c, numerator_exact, denominator_exact]
    exact moderate.ratio_numerators_ne_zero (j + 1)
  · rw [d, ← div_eq_mul_inv, numerator_exact, denominator_exact]
    exact (faces_ratio_denominators moderate.mem_slitPlane (j + 1)).ne_zero

/-- What an iteration keeps: the value is a convergent, beside the two ratios that led to it. -/
theorem stateAfter_succ (tolerance : ℝ) (j : ℕ) :
    let s := stateAfter tolerance z (j + 1)
    s.value = (shiftedFraction z).convs (j + 1) ∧ s.c = ratio z (firstRatio z) j ∧
      s.d = (ratio z z j)⁻¹ := by
  induction j with
  | zero =>
    obtain ⟨streak, stepped⟩ := (unguarded_initial moderate).step tolerance
    have first : stateAfter tolerance z 1 = _ := stepped
    have c : partialDenominator z 1 + partialNumerator z 1 / 1e-30 = firstRatio z := rfl
    have d : partialDenominator z 1 + partialNumerator z 1 * 0 = z := by
      rw [mul_zero, add_zero]
      rfl
    rw [initial_exact] at first
    simp only [c, d] at first
    rw [first, convs_succ moderate, convs_zero]
    exact ⟨rfl, rfl, rfl⟩
  | succ j ih =>
    obtain ⟨value, c, d⟩ := ih
    obtain ⟨streak, stepped⟩ := (unguarded_of_ratios moderate c d).step tolerance
    have next : stateAfter tolerance z (j + 2) = _ := stepped
    rw [next, convs_succ moderate, c, d, value]
    exact ⟨rfl, rfl, rfl⟩

theorem unguarded_stateAfter (tolerance : ℝ) (j : ℕ) :
    (stateAfter tolerance z j).Unguarded z (j + 1) := by
  cases j with
  | zero => exact unguarded_initial moderate
  | succ j =>
    obtain ⟨-, c, d⟩ := stateAfter_succ moderate tolerance j
    exact unguarded_of_ratios moderate c d

theorem value_stateAfter (tolerance : ℝ) (j : ℕ) :
    (stateAfter tolerance z j).value = 1e-30 + (fraction z).convs' j := by
  have cut : (shiftedFraction z).convs j = 1e-30 + (fraction z).convs' j := by
    have nonvanishing := fun m n => (faces_below moderate.mem_slitPlane m n).ne_zero
    rw [shiftedFraction, convs_eq_convs' 1e-30 _ nonvanishing]
    change (1e-30 : ℂ) + _ = 1e-30 + (0 + _)
    rw [zero_add]
    rfl
  rw [← cut]
  cases j with
  | zero =>
    have start : stateAfter tolerance z 0 = _ := initial_exact
    rw [start, convs_zero]
  | succ j => exact (stateAfter_succ moderate tolerance j).1

end

end Lentz

/-- Moderate arguments are those that the integral sends to the continued fraction. -/
theorem IsModerate.expInt_eq {z : ℂ} (moderate : IsModerate z) :
    expInt z = Estimate.value <$> continuedFraction defaultTolerance z := by
  have five : ¬ ‖z‖ < 5.0 := by
    norm_num
    exact moderate.outer
  have thirty : ‖z‖ < 30.0 := by
    norm_num
    exact moderate.inner
  have apart : nearCut z = false := decide_eq_false (not_lt.mpr moderate.apart)
  simp only [expInt, modulus_exact, five, thirty, apart, if_true, if_false, Bool.false_eq_true]
  rfl

/-- The modified Lentz method never needs its guards: in no iteration a guarded sum or a divisor
vanishes, and neither does a tail of the fraction. After each iteration the value is the stand-in
for zero plus the fraction cut after as many partial denominators. -/
theorem lentz_eq_cut_fraction {z : ℂ} (moderate : IsModerate z) :
    expInt z = Estimate.value <$> continuedFraction defaultTolerance z ∧
    (∀ m n, partialDenominator z (m + 1) + below (partialFractions z) (m + 1) n ≠ 0) ∧
    ∀ tolerance : ℝ,
      (∀ j, (Lentz.stateAfter tolerance z j).Unguarded z (j + 1) ∧
        (Lentz.stateAfter tolerance z j).value = 1e-30 + (fraction z).convs' j) ∧
      ∃ n, IsLeast {j | 1 ≤ j ∧ ((Lentz.stateAfter tolerance z j).streak = 5 ∨ j = 999)} n ∧
        (continuedFraction tolerance z).value = ⟨1e-30 + (fraction z).convs' n, n⟩ := by
  refine ⟨moderate.expInt_eq, fun m n => (faces_below moderate.mem_slitPlane m n).ne_zero,
    fun tolerance => ⟨fun j => ⟨Lentz.unguarded_stateAfter moderate tolerance j,
      Lentz.value_stateAfter moderate tolerance j⟩, ?_⟩⟩
  obtain ⟨n, ends, ended⟩ := CountedLoop.exists_endsWith
    (fun j s => s.step tolerance z j) (fun s : Lentz ℂ => s.streak == 5)
    (Lentz.initial (R := ℝ)) 998
  change CountedLoop.run _ _ 999 0 _ = ((Lentz.stateAfter tolerance z n, n), _) at ended
  refine ⟨n, ?_, ?_⟩
  · simp only [CountedLoop.EndsWith, beq_iff_eq] at ends
    exact ends
  · simp only [continuedFraction, Lentz.run_eq_loop, ended, Prod.map,
      Lentz.value_stateAfter moderate, Logged.value_bind, Logged.value_pure]

/-- Left of the imaginary axis, with a tolerance that is never met. -/
theorem lentz_eq_cut_fraction_leftward :
    let z : ℂ := (10 : ℝ) * (Complex.cos (2 : ℝ) + Complex.sin (2 : ℝ) * Complex.I)
    IsModerate z ∧ (Lentz.stateAfter 0 z 998).Unguarded z 999 ∧
      (Lentz.stateAfter 0 z 999).value = 1e-30 + (fraction z).convs' 999 := by
  intro z
  have three := Real.pi_gt_three
  have size : ‖z‖ = 10 := by
    rw [norm_mul, Complex.norm_real, Complex.norm_cos_add_sin_mul_I]
    norm_num
  have angle : z.arg = 2 :=
    Complex.arg_mul_cos_add_sin_mul_I (by norm_num) ⟨by linarith, by linarith⟩
  have moderate : IsModerate z := by
    refine ⟨by rw [size]; norm_num, by rw [size]; norm_num, ?_⟩
    rw [angle, abs_two, abs_sub_comm, abs_of_pos (by linarith)]
    linarith
  obtain ⟨-, -, run⟩ := lentz_eq_cut_fraction moderate
  obtain ⟨states, -⟩ := run 0
  exact ⟨moderate, (states 998).1, (states 999).2⟩

end ExponentialIntegral

end LatticeGreen
