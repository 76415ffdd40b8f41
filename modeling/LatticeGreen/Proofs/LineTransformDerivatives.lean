import LatticeGreen.LineTransform
import LatticeGreen.Proofs.Answers
import LatticeGreen.Proofs.ExponentialCutoff
import Mathlib

/-!
# The derivatives of the long-range kernel along a line

Close to the line the program adds up a series with its two derivatives in the distance, pass by
pass; far from the line it takes them from a Bessel function. Either way its three numbers are a
function of the distance with its first two derivatives.
-/
namespace LatticeGreen
open Complex (I exp)

/-! ## Functions of the distance from a line -/

/-- The first two derivatives of a function exist off the line. -/
def TwiceDifferentiable (g : ℝ → ℂ) : Prop :=
  ∀ r, 0 < r → DifferentiableAt ℝ g r ∧ DifferentiableAt ℝ (deriv g) r

/-- A function of the distance with its first two derivatives. -/
noncomputable def Radial.jet (g : ℝ → ℂ) (r : ℝ) : Radial ℂ := ⟨g r, deriv g r, deriv (deriv g) r⟩

namespace TwiceDifferentiable
variable {g : ℝ → ℂ} {f : ℝ → Radial ℂ}

/-- A function and what follows from it by two derivatives make up its jet. -/
theorem of_hasDerivAt (value : ∀ r, 0 < r → HasDerivAt (fun r => (f r).value) (f r).first r)
    (first : ∀ r, 0 < r → HasDerivAt (fun r => (f r).first) (f r).second r) :
    TwiceDifferentiable (fun r => (f r).value) ∧
      ∀ r, 0 < r → Radial.jet (fun r => (f r).value) r = f r := by
  have slope : ∀ r, 0 < r → HasDerivAt (deriv fun r => (f r).value) (f r).second r := by
    intro r apart
    refine (first r apart).congr_of_eventuallyEq ?_
    filter_upwards [Ioi_mem_nhds apart] with s beyond
    exact (value s beyond).deriv
  refine ⟨fun r apart => ⟨(value r apart).differentiableAt, (slope r apart).differentiableAt⟩,
    fun r apart => ?_⟩
  rw [Radial.jet, (value r apart).deriv, (slope r apart).deriv]

theorem hasDerivAt (twice : TwiceDifferentiable g) {r : ℝ} (apart : 0 < r) :
    HasDerivAt g (deriv g r) r := (twice r apart).1.hasDerivAt

theorem hasDerivAt_deriv (twice : TwiceDifferentiable g) {r : ℝ} (apart : 0 < r) :
    HasDerivAt (deriv g) (deriv (deriv g) r) r := (twice r apart).2.hasDerivAt

end TwiceDifferentiable

namespace LineTransform
open ExponentialIntegral (expInt)

/-! ## The passes of the loop -/

namespace Partial
variable {R C : Type}
variable [Sub R] [Mul R] [Div R] [Neg R] [OfScientific R] [NatCast R] [LT R] [DecidableLT R]
variable [Add C] [Sub C] [Mul C] [Div C] [ComplexFunctions R C]

/-- The running quantities after a number of passes. -/
def after (x expFactor : C) (rho eta : R) (s : Partial R C) : Nat → Partial R C
  | 0 => s
  | n + 1 => (after x expFactor rho eta s n).step x expFactor rho eta (n + 1)

/-- The first pass after which two small terms in a row were seen, or the last one. -/
def StopsAfter (x expFactor : C) (rho eta : R) (s : Partial R C) (last n : Nat) : Prop :=
  IsLeast {m | (after x expFactor rho eta s m).streak = 2 ∨ m = last} n

/-- The loop stops there. -/
theorem run_eq_after (x expFactor : C) (rho eta : R) (s : Partial R C) (budget q : Nat)
    (running : ∀ m ≤ q, (after x expFactor rho eta s m).streak ≠ 2) :
    ∃ n, StopsAfter x expFactor rho eta s (q + budget) n ∧
      (run x expFactor rho eta budget q (after x expFactor rho eta s q)).1 =
        after x expFactor rho eta s n := by
  induction budget generalizing q with
  | zero =>
    refine ⟨q, ⟨Or.inr rfl, ?_⟩, rfl⟩
    rintro m (settled | last)
    · by_contra earlier
      exact running m (by omega) settled
    · omega
  | succ budget ih =>
    unfold run
    change ∃ n, _ ∧ (if (after x expFactor rho eta s (q + 1)).streak = 2 then
      (after x expFactor rho eta s (q + 1), true) else _).1 = _
    by_cases settled : (after x expFactor rho eta s (q + 1)).streak = 2
    · rw [if_pos settled]
      refine ⟨q + 1, ⟨Or.inl settled, ?_⟩, rfl⟩
      rintro m (settled' | last)
      · by_contra earlier
        exact running m (by omega) settled'
      · omega
    · have last : q + (budget + 1) = q + 1 + budget := by omega
      rw [if_neg settled, last]
      apply ih (q + 1)
      intro m reached
      rcases Nat.le_succ_iff.mp reached with earlier | rfl
      · exact running m earlier
      · exact settled

end Partial

/-! ## The series -/

/-- The integral of order `q + 1`, by the recurrence from the one of order one. -/
noncomputable def order (x e1 : ℂ) : ℕ → ℂ
  | 0 => e1
  | q + 1 => (exp (-x) - x * order x e1 q) / (q + 1)

/-- The weight of an order. -/
noncomputable def weight (E : ℝ) (q : ℕ) (r : ℝ) : ℝ := (-(r ^ 2 * E ^ 2)) ^ q / q.factorial

/-- The series cut after the order `n + 1`. -/
noncomputable def cutSeries (x e1 : ℂ) (E : ℝ) (n : ℕ) (r : ℝ) : ℂ :=
  ∑ q ∈ Finset.range (n + 1), weight E q r * order x e1 q

theorem weight_succ (E : ℝ) (q : ℕ) (r : ℝ) :
    weight E (q + 1) r = weight E q r * (-(r * r * E * E) / (q + 1 : ℕ)) := by
  unfold weight
  rw [pow_succ, Nat.factorial_succ]
  push_cast
  field_simp

/-- Away from the line a weight goes with the power `2 q` of the distance. -/
theorem hasDerivAt_weight (E : ℝ) (q : ℕ) {r : ℝ} (apart : r ≠ 0) :
    HasDerivAt (weight E q) (2 * q / r * weight E q r) r := by
  have square : HasDerivAt (fun r : ℝ => -(r ^ 2 * E ^ 2)) (-(2 * r * E ^ 2)) r := by
    simpa using ((hasDerivAt_pow 2 r).mul_const (E ^ 2)).fun_neg
  refine ((square.fun_pow q).div_const (q.factorial : ℝ)).congr_deriv ?_
  unfold weight
  cases q with
  | zero => simp
  | succ q =>
    rw [Nat.add_sub_cancel]
    field_simp
    ring

theorem hasDerivAt_weight_slope (E : ℝ) (q : ℕ) {r : ℝ} (apart : r ≠ 0) :
    HasDerivAt (fun r => 2 * q / r * weight E q r) (2 * q / r * ((2 * q - 1) / r) * weight E q r)
      r := by
  have inverse := ((hasDerivAt_inv apart).const_mul (2 * q : ℝ)).fun_mul
    (hasDerivAt_weight E q apart)
  simp only [← div_eq_mul_inv] at inverse
  refine inverse.congr_deriv ?_
  field_simp
  ring

/-- The series cut after some order with the sums that the program has for its derivatives. -/
noncomputable def cutRadial (x e1 : ℂ) (E : ℝ) (n : ℕ) (r : ℝ) : Radial ℂ where
  value := cutSeries x e1 E n r
  first := ∑ q ∈ Finset.range (n + 1), (2 * q / r * weight E q r : ℝ) * order x e1 q
  second := ∑ q ∈ Finset.range (n + 1),
    (2 * q / r * ((2 * q - 1) / r) * weight E q r : ℝ) * order x e1 q

theorem jet_cutSeries (x e1 : ℂ) (E : ℝ) (n : ℕ) :
    TwiceDifferentiable (cutSeries x e1 E n) ∧
      ∀ r, 0 < r → Radial.jet (cutSeries x e1 E n) r = cutRadial x e1 E n r := by
  refine TwiceDifferentiable.of_hasDerivAt (f := cutRadial x e1 E n) (fun r apart => ?_)
    (fun r apart => ?_)
  · simp only [cutRadial, cutSeries]
    exact HasDerivAt.fun_sum fun q _ =>
      (hasDerivAt_weight E q apart.ne').ofReal_comp.mul_const (order x e1 q)
  · simp only [cutRadial]
    exact HasDerivAt.fun_sum fun q _ =>
      (hasDerivAt_weight_slope E q apart.ne').ofReal_comp.mul_const (order x e1 q)

/-- What the passes of the loop keep: the accumulators are the cut series with its derivatives. -/
theorem after_eq (x e1 : ℂ) (rho E : ℝ) (n : ℕ) :
    let s := Partial.after x (exp (-x)) rho E (Partial.initial e1) n
    s.order = order x e1 n ∧ s.weight = weight E n rho ∧
      (⟨s.total, s.first, s.second⟩ : Radial ℂ) = cutRadial x e1 E n rho := by
  have one : (1.0 : ℝ) = 1 := by norm_num
  have two : (2.0 : ℝ) = 2 := by norm_num
  induction n with
  | zero => simp [Partial.after, Partial.initial, cutRadial, cutSeries, order, weight, one]
  | succ n ih =>
    obtain ⟨previous, weighed, summed⟩ := ih
    obtain ⟨total, first, second⟩ := Radial.mk.inj summed
    -- All three sums grow by multiples of one summand, the new weight times the new order, so these
    -- two go through the induction with the sums.
    let s := Partial.after x (exp (-x)) rho E (Partial.initial e1) n
    let s' := s.step x (exp (-x)) rho E (n + 1)
    change s'.order = _ ∧ s'.weight = _ ∧ (⟨s'.total, s'.first, s'.second⟩ : Radial ℂ) = _
    have next : s'.order = order x e1 (n + 1) := by
      change (exp (-x) - x * s.order) / ((n + 1 : ℕ) : ℝ) = _
      rw [previous, order]
      push_cast
      rfl
    have lighter : s'.weight = weight E (n + 1) rho := by
      rw [weight_succ, ← weighed]
      rfl
    have summand : (s'.weight * s'.order : ℂ) = weight E (n + 1) rho * order x e1 (n + 1) := by
      rw [next, lighter]
    have value : s'.total = s.total + s'.weight * s'.order := rfl
    have slope : s'.first = s.first + (2.0 * (n + 1 : ℕ) / rho : ℝ) * (s'.weight * s'.order) := rfl
    have bend : s'.second = s.second + (2.0 * (n + 1 : ℕ) / rho : ℝ) * (s'.weight * s'.order) *
        (2.0 * (n + 1 : ℕ) - 1.0 : ℝ) / rho := rfl
    refine ⟨next, lighter, ?_⟩
    rw [value, slope, bend, summand, total, first, second, one, two]
    simp only [cutRadial, cutSeries, Finset.sum_range_succ _ (n + 1), Radial.mk.injEq, true_and]
    push_cast
    refine ⟨?_, ?_⟩ <;> ring

/-- The accumulators of any number of passes are a cut series with its first two derivatives. -/
theorem after_eq_jet (x e1 : ℂ) {rho : ℝ} (apart : 0 < rho) (E : ℝ) (n : ℕ) :
    let s := Partial.after x (exp (-x)) rho E (Partial.initial e1) n
    (⟨s.total, s.first, s.second⟩ : Radial ℂ) = Radial.jet (cutSeries x e1 E n) rho := by
  rw [(jet_cutSeries x e1 E n).2 rho apart]
  exact (after_eq x e1 rho E n).2.2

section
variable {kt2 : ℂ} {rho E : ℝ} (apart : 0 < rho)
include apart

/-- Without an underflow the series is what the loop has when it stops. -/
theorem value_series (kept : (expInt (scaledArgument kt2 E)).value ≠ 0) :
    let x := scaledArgument kt2 E
    let norm : ℂ := (8 * Real.pi ^ 2 : ℝ)
    let s := (Partial.run x (exp (-x)) rho E 999 0 (Partial.initial (expInt x).value)).1
    (series kt2 rho E).value = ⟨s.total / norm, s.first / norm, s.second / norm⟩ := by
  have off : (rho == (0.0 : ℝ)) = false := beq_zero_of_ne apart.ne'
  have nonzero : ((expInt (scaledArgument kt2 E)).value == (zeroC : ℂ)) = false := by
    rw [beq_eq_false_iff_ne, zeroC_exact]
    exact kept
  intro x norm
  have scale : (ofReal (8.0 * (pi * pi) : ℝ) : ℂ) = norm := by
    simp only [norm, pi_exact, ofReal_exact, sq]
    norm_num
  unfold series
  simp only [Logged.value_bind, off, nonzero, Bool.false_eq_true, if_false, scale]
  rfl

theorem value_series_of_underflow (underflow : (expInt (scaledArgument kt2 E)).value = 0) :
    (series kt2 rho E).value = ⟨0, 0, 0⟩ := by
  have off : (rho == (0.0 : ℝ)) = false := beq_zero_of_ne apart.ne'
  unfold series
  simp [off, underflow]

end

/-- The loop for a distance, from any value of the first integral. -/
theorem exists_stopsAfter (x e1 : ℂ) (rho E : ℝ) :
    ∃ n, Partial.StopsAfter x (exp (-x)) rho E (Partial.initial e1) 999 n ∧
      (Partial.run x (exp (-x)) rho E 999 0 (Partial.initial e1)).1 =
        Partial.after x (exp (-x)) rho E (Partial.initial e1) n := by
  have running : ∀ m ≤ 0,
      (Partial.after x (exp (-x)) rho E (Partial.initial e1) m).streak ≠ 2 := by
    rintro m begun
    rw [Nat.le_zero.mp begun]
    exact nofun
  simpa only [Nat.zero_add, Partial.after] using
    Partial.run_eq_after x (exp (-x)) rho E (Partial.initial e1) 999 0 running

/-- Close to the line the transform answers the accumulators of one of the passes, each over the
same number. -/
theorem answer_longRange_of_near [SpecialFunctions ℂ] (kt2 : ℂ) {rho E : ℝ} (positive : 0 < E)
    (apart : 0 < rho) (near : rho * E ≤ 4.5) :
    let x := scaledArgument kt2 E
    let norm : ℂ := (8 * Real.pi ^ 2 : ℝ)
    ∃ n, let s := Partial.after x (exp (-x)) rho E (Partial.initial (expInt x).value) n
      n ≤ 999 ∧
      (longRange kt2 rho E).answer = .ok ⟨s.total / norm, s.first / norm, s.second / norm⟩ := by
  intro x norm
  have summed : (longRange kt2 rho E).answer = .ok (series kt2 rho E).value := by
    rw [longRange_of_near kt2 positive near]
    rfl
  rw [summed]
  by_cases underflow : (expInt x).value = 0
  · -- The program answers zeros, and so are the accumulators before the first pass.
    refine ⟨0, Nat.zero_le _, ?_⟩
    rw [value_series_of_underflow apart underflow, underflow]
    simp [Partial.after, Partial.initial]
  · obtain ⟨n, stops, stopped⟩ := exists_stopsAfter x (expInt x).value rho E
    refine ⟨n, stops.2 (Or.inr rfl), ?_⟩
    rw [value_series apart underflow, stopped]

/-! ## The Bessel function -/

/-- What the derivatives of the first two Bessel functions are, along a ray from the origin. -/
def BesselRelations [SpecialFunctions ℂ] (kt : ℂ) : Prop :=
  ∀ r : ℝ, 0 < r →
    HasDerivAt (fun w : ℂ => (besselK w).1) (-(besselK (kt * r)).2.1) (kt * r) ∧
      HasDerivAt (fun w : ℂ => (besselK w).2.1)
        (-((besselK (kt * r)).1 + (besselK (kt * r)).2.2) / 2) (kt * r)

section
variable [SpecialFunctions ℂ] (kt2 : ℂ)

theorem value_rootTransform (kt : ℂ) (r : ℝ) : (FreeSpace.rootTransform kt kt2 r).value =
    (besselK (kt * r)).1 / (4 * Real.pi ^ 2 : ℝ) := by
  have norm : (4.0 * (pi * pi) : ℝ) = 4 * Real.pi ^ 2 := by
    simp only [pi_exact, sq]
    norm_num
  simp only [FreeSpace.rootTransform, ofReal_exact, norm]

/-- The transform of the whole kernel comes with its first two derivatives, whichever root is
taken. -/
theorem jet_rootTransform {kt : ℂ} (root : kt ^ 2 = kt2) (bessel : BesselRelations kt) :
    let whole (r : ℝ) : ℂ := (FreeSpace.rootTransform kt kt2 r).value
    TwiceDifferentiable whole ∧
      ∀ r, 0 < r → Radial.jet whole r = FreeSpace.rootTransform kt kt2 r := by
  let norm : ℝ := 4.0 * (pi * pi)
  have double : ((2.0 * norm : ℝ) : ℂ) = 2 * norm := by
    push_cast
    norm_num
  have ray : ∀ r : ℝ, HasDerivAt (fun r : ℝ => kt * r) (kt * 1) r := fun r =>
    Complex.ofRealCLM.hasDerivAt.const_mul kt
  refine TwiceDifferentiable.of_hasDerivAt (fun r apart => ?_) (fun r apart => ?_)
  · have zeroth := ((bessel r apart).1.comp r (ray r)).div_const (norm : ℂ)
    refine zeroth.congr_deriv ?_
    change _ = -kt * (besselK (kt * r)).2.1 / norm
    ring
  · have first := (((bessel r apart).2.comp r (ray r)).const_mul (-kt)).div_const (norm : ℂ)
    refine first.congr_deriv ?_
    change _ = kt2 * ((besselK (kt * r)).1 + (besselK (kt * r)).2.2) / ((2.0 * norm : ℝ) : ℂ)
    rw [double]
    linear_combination ((besselK (kt * r)).1 + (besselK (kt * r)).2.2) / (2 * norm) * root

theorem longRange_of_far {rho E : ℝ} (far : 4.5 < rho * E) :
    longRange kt2 rho E = pure (FreeSpace.rootTransform (kt2 ^ (1 / 2 : ℂ)) kt2 rho) := by
  unfold longRange
  exact if_pos far

end

end LineTransform
end LatticeGreen
