import LatticeGreen.Slots
import Mathlib.Algebra.BigOperators.Group.List.Basic
import Mathlib.Analysis.SpecialFunctions.Pow.Complex
import Mathlib.NumberTheory.Harmonic.EulerMascheroni

/-!
# Exact scalars

The real and the complex numbers are scalars, and what is written over all scalars can be read over
them as an ordinary formula. Where addition does not round, a sum over rows may be taken in any
order and in any grouping.
-/
namespace LatticeGreen

/-- Definitions with the numeral two refer to this one instance, in whichever module they stand. -/
instance atLeastTwo_two : Nat.AtLeastTwo 2 := ⟨le_rfl⟩

/-- So do those with the numeral four. -/
instance atLeastTwo_four : Nat.AtLeastTwo 4 := ⟨by decide⟩

/-- And those with the numeral eight. -/
instance atLeastTwo_eight : Nat.AtLeastTwo 8 := ⟨by decide⟩

noncomputable instance : RealFunctions ℝ where
  sqrt := Real.sqrt
  abs := fun x => |x|
  maximum := max
  isFinite := fun _ => true
  pi := Real.pi
  eulerGamma := Real.eulerMascheroniConstant

noncomputable instance : ComplexFunctions ℝ ℂ where
  ofParts := Complex.mk
  ofReal := Complex.ofReal
  re := Complex.re
  im := Complex.im
  modulus := fun z => ‖z‖
  argument := Complex.arg
  cexp := Complex.exp
  clog := Complex.log
  csqrt := fun z => z ^ (1 / 2 : ℂ)

section
variable (x y : ℝ) (z : ℂ)

@[simp] theorem sqrt_exact : sqrt x = √x := rfl
@[simp] theorem abs_exact : RealFunctions.abs x = |x| := rfl
@[simp] theorem pi_exact : (pi : ℝ) = Real.pi := rfl
@[simp] theorem ofParts_exact : (ofParts x y : ℂ) = ⟨x, y⟩ := rfl
@[simp] theorem ofReal_exact : (ofReal x : ℂ) = (x : ℂ) := rfl
@[simp] theorem re_exact : re z = z.re := rfl
@[simp] theorem im_exact : im z = z.im := rfl
@[simp] theorem modulus_exact : modulus z = ‖z‖ := rfl
@[simp] theorem argument_exact : argument z = z.arg := rfl
@[simp] theorem cexp_exact : cexp z = Complex.exp z := rfl
@[simp] theorem clog_exact : clog z = Complex.log z := rfl
@[simp] theorem csqrt_exact : csqrt z = z ^ (1 / 2 : ℂ) := rfl

@[simp] theorem zeroC_exact : (zeroC : ℂ) = 0 := by
  apply Complex.ext <;> norm_num [zeroC]

@[simp] theorem imaginaryUnit_exact : (imaginaryUnit : ℂ) = Complex.I := by
  apply Complex.ext <;> norm_num [imaginaryUnit]

/-- No exact number is infinite or undefined. -/
@[simp] theorem finiteParts_exact : finiteParts z = true := rfl

end

/-- The principal root is a root. -/
theorem sq_csqrt (z : ℂ) : (csqrt z : ℂ) ^ 2 = z := by
  rw [csqrt_exact, one_div]
  exact Complex.cpow_ofNat_inv_pow z 2

/-- The root has half the argument. -/
theorem im_log_mul_half (z : ℂ) : (Complex.log z * (1 / 2 : ℂ)).im = z.arg / 2 := by
  have real : (1 / 2 : ℂ) = ((1 / 2 : ℝ) : ℂ) := by norm_num
  rw [real, Complex.im_mul_ofReal, Complex.log_im]
  ring

/-- The principal root lies in the right half plane. -/
theorem re_csqrt_pos {z : ℂ} (off : z ∈ Complex.slitPlane) : 0 < (csqrt z : ℂ).re := by
  obtain ⟨arg_ne_pi, nonzero⟩ := Complex.mem_slitPlane_iff_arg.mp off
  have below : z.arg < Real.pi := lt_of_le_of_ne (Complex.arg_le_pi z) arg_ne_pi
  have above : -Real.pi < z.arg := Complex.neg_pi_lt_arg z
  rw [csqrt_exact, Complex.cpow_def_of_ne_zero nonzero, Complex.exp_re, im_log_mul_half]
  apply mul_pos (Real.exp_pos _)
  apply Real.cos_pos_of_mem_Ioo
  constructor
  · linarith
  · linarith

theorem beq_zero_exact (x : ℝ) : (x == 0.0) = decide (x = 0) := by
  rw [Bool.eq_iff_iff, beq_iff_eq, decide_eq_true_iff]
  norm_num

theorem beq_zero_of_ne {x : ℝ} (nonzero : x ≠ 0) : (x == 0.0) = false := by
  rw [beq_zero_exact, decide_eq_false_iff_not]
  exact nonzero

/-- Addition without rounding. -/
structure ExactAddition (R C : Type) [OfScientific R] [ComplexFunctions R C] [Add C] : Prop where
  assoc : ∀ a b c : C, a + b + c = a + (b + c)
  comm : ∀ a b : C, a + b = b + a
  zero_add : ∀ a : C, zeroC + a = a

theorem exactAddition_complex : ExactAddition ℝ ℂ where
  assoc := add_assoc
  comm := add_comm
  zero_add := by
    intro a
    rw [zeroC_exact]
    exact zero_add a

namespace ExactAddition
variable {R C : Type} [OfScientific R] [ComplexFunctions R C] [Add C]

/-- Rows of eight slots under an addition that does not round. -/
abbrev slots (exact : ExactAddition R C) : AddCommMonoid (Slots C) :=
  letI : Zero (Slots C) := ⟨Slots.zero⟩
  { add_assoc := fun a b c => by
      change Slots.zipWith _ (Slots.zipWith _ a b) c = Slots.zipWith _ a (Slots.zipWith _ b c)
      simp only [Slots.zipWith, exact.assoc]
    zero_add := fun a => by
      change Slots.zipWith _ Slots.zero a = a
      simp only [Slots.zipWith, Slots.zero, Slots.replicate, exact.zero_add]
    add_zero := fun a => by
      change Slots.zipWith _ a Slots.zero = a
      simp only [Slots.zipWith, Slots.zero, Slots.replicate, exact.comm _ zeroC, exact.zero_add]
    add_comm := fun a b => by
      change Slots.zipWith _ a b = Slots.zipWith _ b a
      simp only [Slots.zipWith, exact.comm]
    nsmul := nsmulRec }

theorem sum_eq (exact : ExactAddition R C) (rows : List (Slots C)) :
    Slots.sum rows = letI := exact.slots; rows.sum := by
  let := exact.slots
  rw [List.sum_eq_foldl]
  rfl

/-- Rows may be added in any order. -/
theorem sum_perm (exact : ExactAddition R C) {rows rows' : List (Slots C)}
    (rearranged : rows.Perm rows') : Slots.sum rows = Slots.sum rows' := by
  let := exact.slots
  rw [exact.sum_eq, exact.sum_eq]
  exact rearranged.sum_eq

/-- Rows may be added group by group. -/
theorem sum_flatten (exact : ExactAddition R C) (groups : List (List (Slots C))) :
    Slots.sum groups.flatten = Slots.sum (groups.map Slots.sum) := by
  let := exact.slots
  have each : (Slots.sum : List (Slots C) → Slots C) = List.sum := by
    funext rows
    exact exact.sum_eq rows
  rw [exact.sum_eq, exact.sum_eq, each]
  exact List.sum_flatten

theorem sum_append (exact : ExactAddition R C) (rows rows' : List (Slots C)) :
    Slots.sum (rows ++ rows') = Slots.sum rows + Slots.sum rows' := by
  let := exact.slots
  rw [exact.sum_eq, exact.sum_eq, exact.sum_eq]
  exact List.sum_append

/-- Rows that belong together may be added first. -/
theorem sum_map_add {α : Type} (exact : ExactAddition R C) (f g : α → Slots C) (cells : List α) :
    Slots.sum (cells.map f) + Slots.sum (cells.map g) =
      Slots.sum (cells.map fun cell => f cell + g cell) := by
  let := exact.slots
  rw [exact.sum_eq, exact.sum_eq, exact.sum_eq]
  exact List.sum_map_add.symm

end ExactAddition

noncomputable instance : Zero (Slots ℂ) := ⟨Slots.zero⟩

noncomputable instance : Neg (Slots ℂ) := ⟨Slots.map (- ·)⟩

/-- Complex rows can be added, and taken from each other, slot by slot. -/
noncomputable instance : AddCommGroup (Slots ℂ) :=
  { exactAddition_complex.slots with
    neg := fun a => -a
    sub := fun a b => a - b
    sub_eq_add_neg := fun a b => by
      change Slots.zipWith _ a b = Slots.zipWith _ a (Slots.map _ b)
      simp only [Slots.zipWith, Slots.map, sub_eq_add_neg]
    neg_add_cancel := fun a => by
      change Slots.zipWith _ (Slots.map _ a) a = Slots.zero
      simp only [Slots.zipWith, Slots.map, neg_add_cancel, Slots.zero, Slots.replicate,
        zeroC_exact]
    zsmul := zsmulRec }

end LatticeGreen
