import LatticeGreen.Proofs.BesselIntegral

/-!
# The radial equation of the long-range kernel along a line

Off the line the transform of the whole kernel solves the radial Helmholtz equation. The series for
the long-range half, cut after any pass, misses it by a sum that telescopes: each pass takes back
what the pass before it left, up to a multiple of its weight, and leaves a multiple of its own term.
Only the recurrence between the orders enters, not what the first of them is.
-/
namespace LatticeGreen
open Complex (exp)

/-- What a function of the distance from a line misses the radial Helmholtz equation
`g'' + g' / r = kt ^ 2 g` by. -/
noncomputable def Radial.defect (g : Radial ℂ) (kt2 : ℂ) (r : ℝ) : ℂ :=
  g.second + g.first / r - kt2 * g.value

/-- The equation is linear. -/
theorem Radial.defect_div (g : Radial ℂ) (kt2 : ℂ) (r : ℝ) (c : ℂ) :
    Radial.defect ⟨g.value / c, g.first / c, g.second / c⟩ kt2 r = g.defect kt2 r / c := by
  unfold defect
  ring

namespace LineTransform
open ExponentialIntegral (expInt)

/-! ## Near the line -/

section
variable (x e1 : ℂ) (E : ℝ)

theorem mul_order_succ (q : ℕ) :
    (q + 1) * order x e1 (q + 1) = exp (-x) - x * order x e1 q := by
  have nonzero : (q + 1 : ℂ) ≠ 0 := by exact_mod_cast q.succ_ne_zero
  rw [order]
  field_simp

/-- The derivatives of a term of the series, as the equation has them, are given by the weight and
the integral before it. -/
theorem slopes_succ {r : ℝ} (apart : 0 < r) (n : ℕ) :
    let q : ℝ := (n + 1 : ℕ)
    let c := weight E (n + 1) r
    (2 * q / r * ((2 * q - 1) / r) * c : ℝ) * order x e1 (n + 1) +
        (2 * q / r * c : ℝ) * order x e1 (n + 1) / r =
      -(4 * E ^ 2) * (weight E n r * (exp (-x) - x * order x e1 n)) := by
  have nonzero : (r : ℂ) ≠ 0 := by exact_mod_cast apart.ne'
  have counted : (n + 1 : ℂ) ≠ 0 := by exact_mod_cast n.succ_ne_zero
  intro q c
  simp only [q, c]
  rw [← mul_order_succ, weight_succ]
  push_cast
  field_simp
  ring

/-- What a term adds to the two sides of the equation. -/
theorem defect_cutRadial_succ {r : ℝ} (apart : 0 < r) (n : ℕ) :
    (cutRadial x e1 E (n + 1) r).defect (4 * E ^ 2 * x) r =
      (cutRadial x e1 E n r).defect (4 * E ^ 2 * x) r -
        4 * E ^ 2 * (weight E n r * (exp (-x) - x * order x e1 n) +
          x * weight E (n + 1) r * order x e1 (n + 1)) := by
  have slopes := slopes_succ x e1 E apart n
  simp only [cutRadial, cutSeries, Radial.defect, Finset.sum_range_succ _ (n + 1)]
  linear_combination slopes

/-- What the series cut after some term misses the equation by. -/
theorem defect_cutRadial {r : ℝ} (apart : 0 < r) (n : ℕ) :
    (cutRadial x e1 E n r).defect (4 * E ^ 2 * x) r =
      -(4 * E ^ 2) * (exp (-x) * ∑ q ∈ Finset.range n, (weight E q r : ℂ) +
        x * weight E n r * order x e1 n) := by
  induction n with
  | zero =>
    simp only [cutRadial, cutSeries, Radial.defect, Nat.zero_add, Finset.sum_range_one,
      Finset.sum_range_zero, CharP.cast_eq_zero]
    push_cast
    ring
  | succ n ih =>
    -- The part of the sum that the term takes back is the one that the term before it left.
    rw [defect_cutRadial_succ x e1 E apart, ih, Finset.sum_range_succ]
    ring

end

/-- What the accumulators miss the equation by after a number of passes, from any value of the first
integral. -/
theorem defect_after (kt2 e1 : ℂ) {rho E : ℝ} (positive : 0 < E) (apart : 0 < rho) (n : ℕ) :
    let x := kt2 / (4 * E ^ 2)
    let s := Partial.after x (exp (-x)) rho E (Partial.initial e1) n
    Radial.defect ⟨s.total, s.first, s.second⟩ kt2 rho =
      -(4 * E ^ 2) * (exp (-x) * ∑ q ∈ Finset.range n, (weight E q rho : ℂ) +
        x * weight E n rho * s.order) := by
  intro x s
  have nonzero : (E : ℂ) ≠ 0 := by exact_mod_cast positive.ne'
  have argument : 4 * E ^ 2 * x = kt2 := by
    simp only [x]
    field_simp
  obtain ⟨last, -, accumulated⟩ := after_eq x e1 rho E n
  rw [accumulated, last, ← argument]
  exact defect_cutRadial x e1 E apart n

/-! ## Far from the line -/

/-- With the recurrence of the Bessel functions the transform of the whole kernel solves the
equation, whichever root is taken. -/
theorem defect_rootTransform [SpecialFunctions ℂ] {kt kt2 : ℂ} (root : kt ^ 2 = kt2) {rho : ℝ}
    (apart : 0 < rho)
    (recurrence : let w := kt * rho
      (besselK w).2.2 = (besselK w).1 + 2 * (besselK w).2.1 / w) :
    (FreeSpace.rootTransform kt kt2 rho).defect kt2 rho = 0 := by
  have nonzero : (rho : ℂ) ≠ 0 := by exact_mod_cast apart.ne'
  have two : (2.0 : ℝ) = 2 := by norm_num
  simp only at recurrence
  simp only [FreeSpace.rootTransform, Radial.defect, ofReal_exact, recurrence, two]
  generalize (4.0 * (pi * pi) : ℝ) = norm
  rw [← root]
  by_cases flat : kt = 0
  · simp [flat]
  · push_cast
    field_simp
    ring

/-- How far the three numbers of the transform solve the radial Helmholtz equation. Close to the
line the loop stops, whatever the value of the first integral, and what it has then misses the
equation by the sum of the weights before the last one and a multiple of the last term. Without an
underflow this is what is answered. Far from the line the equation holds, if the Bessel functions
obey their recurrence, whichever root of the squared wavenumber is the outgoing one. -/
theorem longRange_defect [SpecialFunctions ℂ] (kt2 : ℂ) {rho E : ℝ} (positive : 0 < E)
    (apart : 0 < rho) :
    (rho * E ≤ 4.5 →
      let x := kt2 / (4 * E ^ 2)
      let c (q : ℕ) : ℝ := (-(rho ^ 2 * E ^ 2)) ^ q / q.factorial
      let norm : ℂ := (8 * Real.pi ^ 2 : ℝ)
      ∀ e1 : ℂ, ∃ n,
        let s := Partial.after x (exp (-x)) rho E (Partial.initial e1) n
        let g : Radial ℂ := ⟨s.total / norm, s.first / norm, s.second / norm⟩
        Partial.StopsAfter x (exp (-x)) rho E (Partial.initial e1) 999 n ∧
        (Partial.run x (exp (-x)) rho E 999 0 (Partial.initial e1)).1 = s ∧
        ((expInt x).value = e1 → e1 ≠ 0 → (longRange kt2 rho E).answer = .ok g) ∧
        g.second + g.first / rho - kt2 * g.value = -(E ^ 2 / (2 * Real.pi ^ 2)) *
          (exp (-x) * ∑ q ∈ Finset.range n, (c q : ℂ) + x * c n * s.order)) ∧
    (4.5 < rho * E →
      (longRange kt2 rho E).answer =
        .ok (FreeSpace.rootTransform (kt2 ^ (1 / 2 : ℂ)) kt2 rho) ∧
      ∀ kt : ℂ, kt ^ 2 = kt2 →
        let w := kt * rho
        (besselK w).2.2 = (besselK w).1 + 2 * (besselK w).2.1 / w →
          let g : Radial ℂ := FreeSpace.rootTransform kt kt2 rho
          g.second + g.first / rho - kt2 * g.value = 0) := by
  constructor
  · intro near x c norm e1
    obtain ⟨n, stops, stopped⟩ := exists_stopsAfter x e1 rho E
    refine ⟨n, stops, stopped, ?_, ?_⟩
    · rintro rfl kept
      have argument : scaledArgument kt2 E = x := by
        rw [Reciprocal.scaledArgument_eq]
        push_cast
        rfl
      rw [← argument] at kept stopped ⊢
      rw [longRange_of_near kt2 positive near, ← stopped, ← value_series apart kept]
      rfl
    · let s := Partial.after x (exp (-x)) rho E (Partial.initial e1) n
      have scaled := Radial.defect_div ⟨s.total, s.first, s.second⟩ kt2 rho norm
      have missed := defect_after kt2 e1 positive apart n
      simp only at missed
      change Radial.defect ⟨s.total / norm, s.first / norm, s.second / norm⟩ kt2 rho = _
      rw [scaled, missed]
      simp only [norm, c, weight, x]
      push_cast
      ring
  · intro far
    refine ⟨?_, fun kt root => ?_⟩
    · rw [longRange_of_far kt2 far]
      rfl
    · intro w recurrence
      exact defect_rootTransform root apart recurrence

/-- An order that propagates, close to the line, and one that decays, far from it. -/
theorem longRange_defect_both_sides :
    (0 : ℝ) < 1 ∧ (1 : ℝ) * 1 ≤ 4.5 ∧ (expInt (-1 : ℂ)).value ≠ 0 ∧
      (∃ n, ∃ g : Radial ℂ, (longRange (-4) (1 : ℝ) 1).answer = .ok g ∧
        g.second + g.first - -4 * g.value = -(1 / (2 * Real.pi ^ 2)) *
          (exp 1 * ∑ q ∈ Finset.range n, (-1) ^ q / (q.factorial : ℂ) -
            (-1) ^ n / n.factorial * order (-1) (expInt (-1 : ℂ)).value n)) ∧
      4.5 < (5 : ℝ) * 1 ∧ ∃ g : Radial ℂ, (longRange 3 (5 : ℝ) 1).answer = .ok g ∧
        g.second + g.first / 5 - 3 * g.value = 0 := by
  have positive : (0 : ℝ) < 1 := one_pos
  have five : (0 : ℝ) < 5 := by norm_num
  have near : (1 : ℝ) * 1 ≤ 4.5 := by norm_num
  have far : 4.5 < (5 : ℝ) * 1 := by norm_num
  have kept : (expInt (-1 : ℂ)).value ≠ 0 := by
    have unless_cut := ExponentialIntegral.expInt_neg_eq_zero_iff positive
    rw [Complex.ofReal_one] at unless_cut
    rw [Ne, unless_cut]
    norm_num
  have argument : (-4 / (4 * ((1 : ℝ) : ℂ) ^ 2) : ℂ) = -1 := by norm_num
  have right : 0 < ((3 : ℂ) ^ (1 / 2 : ℂ) * (5 : ℝ)).re := by
    rw [Complex.re_mul_ofReal]
    exact mul_pos (re_csqrt_pos (Complex.ofNat_mem_slitPlane 3)) five
  have close := (longRange_defect (-4) positive positive).1 near (expInt (-1 : ℂ)).value
  rw [argument] at close
  obtain ⟨n, -, -, answered, missed⟩ := close
  obtain ⟨beyond, solves⟩ := (longRange_defect 3 positive five).2 far
  have solved := solves _ (sq_csqrt 3) (besselRecurrence right)
  have last := (after_eq (-1) (expInt (-1 : ℂ)).value 1 1 n).1
  refine ⟨positive, near, kept, ⟨n, _, answered rfl kept, ?_⟩, far, _, beyond, ?_⟩
  · rw [last] at missed
    norm_num at missed ⊢
    rw [missed]
    ring
  · exact_mod_cast solved

end LineTransform
end LatticeGreen
