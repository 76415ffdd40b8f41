import LatticeGreen.Proofs.CountedLoops
import LatticeGreen.Proofs.NegativeAxis
import Mathlib

/-!
# The power series and the asymptotic series

What the two series expansions of the exponential integral give, and after how many terms. The power
series stops at its first term that is small beside the value after it, and has a hundred terms at
most. The terms of the asymptotic series grow without bound for every argument; but where the
integral asks for it, one of the first ten is small enough.
-/
namespace LatticeGreen.ExponentialIntegral
open Filter Finset
open scoped Topology

/-! ## Power series -/

namespace PowerSeries

noncomputable def summand (z : ℂ) (n : ℕ) : ℂ := (-z) ^ n / (n * n.factorial)

/-- `-gamma - log z` less the first `n` terms. -/
noncomputable def partialValue (z : ℂ) (n : ℕ) : ℂ :=
  -Real.eulerMascheroniConstant - Complex.log z - ∑ j ∈ Icc 1 n, summand z j

/-- A term is small beside the value after it. -/
def Negligible (tolerance : ℝ) (z : ℂ) (n : ℕ) : Prop :=
  ‖summand z n‖ < tolerance * ‖partialValue z n‖

theorem partialValue_succ (z : ℂ) (n : ℕ) :
    partialValue z (n + 1) = partialValue z n - summand z (n + 1) := by
  unfold partialValue
  rw [sum_Icc_succ_top (by omega), sub_add_eq_sub_sub]

/-- The state after some terms. -/
noncomputable def stateAfter (z : ℂ) : ℕ → PowerSeries ℝ ℂ :=
  CountedLoop.stateAfter (fun n s => s.step z n) (initial z)

/-- What the steps keep: the factorial, the power and the last two values. -/
theorem stateAfter_eq (z : ℂ) (n : ℕ) :
    stateAfter z n = ⟨n.factorial, (-z) ^ n, partialValue z n, partialValue z (n - 1)⟩ := by
  induction n with
  | zero =>
    have one : (1.0 : ℝ) = 1 := by norm_num
    simp [stateAfter, CountedLoop.stateAfter, initial, partialValue, eulerGamma, one]
  | succ n ih =>
    change (stateAfter z n).step z (n + 1) = _
    have product : (n.factorial * (n + 1 : ℕ) : ℝ) = (n + 1).factorial := by
      rw [Nat.factorial_succ]
      push_cast
      ring
    rw [ih, step, product, ← pow_succ, Nat.add_sub_cancel, partialValue_succ, summand]
    simp only [ofReal_exact]
    push_cast
    rw [mul_comm ((n : ℂ) + 1)]

theorem settled_stateAfter_iff (tolerance : ℝ) (z : ℂ) {n : ℕ} (positive : 1 ≤ n) :
    (stateAfter z n).settled tolerance = true ↔ Negligible tolerance z n := by
  obtain ⟨n, rfl⟩ := Nat.exists_eq_succ_of_ne_zero (Nat.one_le_iff_ne_zero.mp positive)
  have change : partialValue z (n + 1) - partialValue z n = -summand z (n + 1) := by
    rw [partialValue_succ]
    ring
  rw [stateAfter_eq, settled, decide_eq_true_iff, Negligible]
  simp only [modulus_exact, Nat.succ_eq_add_one, Nat.add_sub_cancel, change, norm_neg]

/-- What the loop over the terms makes of the series: a value, its number of terms, and a warning
unless the last of them settled it. -/
theorem exists_endsWith (tolerance : ℝ) (z : ℂ) :
    ∃ n, CountedLoop.EndsWith (fun n s => s.step z n) (settled tolerance) (initial z) 100 n ∧
      (series tolerance z).value = ⟨partialValue z n, n⟩ ∧
      (series tolerance z).events =
        if (stateAfter z n).settled tolerance then [] else [.powerSeriesNotConverged] := by
  obtain ⟨n, ends, ended⟩ := CountedLoop.exists_endsWith
    (fun n s => s.step z n) (settled tolerance) (initial z) 99
  change CountedLoop.run _ _ 100 0 _ =
    ((stateAfter z n, n), (stateAfter z n).settled tolerance) at ended
  refine ⟨n, ends, ?_, ?_⟩
  · simp only [series, run_eq_loop, ended, stateAfter_eq, Prod.map, Logged.value_bind,
      Logged.value_pure]
  · simp only [series, run_eq_loop, ended, Prod.map, Logged.events_bind, Logged.events_pure,
      List.append_nil, id_eq]
    cases (stateAfter z n).settled tolerance with
    | true => rfl
    | false => rfl

end PowerSeries

/-- The power series stops at the first of a hundred terms that is small beside the value after it.
Where there is none it stops at the last, with a warning. -/
theorem series_ends (tolerance : ℝ) (z : ℂ) :
    ∃ n ∈ Icc 1 100, (series tolerance z).value = ⟨PowerSeries.partialValue z n, n⟩ ∧
      ((IsLeast {m | m ∈ Icc 1 100 ∧ PowerSeries.Negligible tolerance z m} n ∧
          (series tolerance z).events = []) ∨
        ((∀ m ∈ Icc 1 100, ¬ PowerSeries.Negligible tolerance z m) ∧ n = 100 ∧
          (series tolerance z).events = [.powerSeriesNotConverged] ∧
          (Event.powerSeriesNotConverged : Event ℝ).level = .warning)) := by
  obtain ⟨n, ends, value, events⟩ := PowerSeries.exists_endsWith tolerance z
  have within : n ∈ Icc 1 100 := mem_Icc.mpr ⟨ends.one_le, ends.le (by norm_num)⟩
  have iff := fun m (member : m ∈ Icc 1 100) =>
    PowerSeries.settled_stateAfter_iff tolerance z (mem_Icc.mp member).1
  refine ⟨n, within, value, ?_⟩
  rw [events]
  rcases ends.isLeast_or_last (by norm_num) with ⟨settles, least⟩ | ⟨unsettled, last, none⟩
  · refine Or.inl ⟨?_, if_pos settles⟩
    have same : {m | m ∈ Icc 1 100 ∧ PowerSeries.Negligible tolerance z m} =
        {m | m ∈ Icc 1 100 ∧ (PowerSeries.stateAfter z m).settled tolerance} :=
      Set.ext fun m => and_congr_right fun member => (iff m member).symm
    rw [same]
    exact least
  · refine Or.inr ⟨fun m member negligible => ?_, last, ?_, rfl⟩
    · have settles := (iff m member).mpr negligible
      exact Bool.false_ne_true ((none m member).symm.trans settles)
    · exact if_neg (Bool.eq_false_iff.mp unsettled)

/-! ## Asymptotic series -/

namespace Asymptotic

noncomputable def summand (z : ℂ) (n : ℕ) : ℂ := (-1) ^ n * n.factorial / z ^ n

/-- The first term and `n` others. -/
noncomputable def partialSum (z : ℂ) (n : ℕ) : ℂ := ∑ j ∈ range (n + 1), summand z j

/-- A term is small beside the sum up to it. -/
def Negligible (tolerance : ℝ) (z : ℂ) (n : ℕ) : Prop :=
  ‖summand z n‖ < tolerance * ‖partialSum z n‖

theorem summand_succ (z : ℂ) (n : ℕ) :
    summand z (n + 1) = summand z n * (-(n + 1 : ℕ) / z) := by
  unfold summand
  rw [div_mul_div_comm, pow_succ, pow_succ, Nat.factorial_succ]
  push_cast
  ring

theorem partialSum_succ (z : ℂ) (n : ℕ) :
    partialSum z (n + 1) = partialSum z n + summand z (n + 1) := sum_range_succ _ _

/-- The state after some terms. -/
noncomputable def stateAfter (z : ℂ) : ℕ → Asymptotic ℂ :=
  CountedLoop.stateAfter (fun n s => s.step (R := ℝ) z n) (initial (R := ℝ))

/-- What the steps keep: the sum and its latest term. -/
theorem stateAfter_eq (z : ℂ) (n : ℕ) : stateAfter z n = ⟨partialSum z n, summand z n⟩ := by
  induction n with
  | zero => norm_num [stateAfter, CountedLoop.stateAfter, initial, partialSum, summand]
  | succ n ih =>
    change (stateAfter z n).step (R := ℝ) z (n + 1) = _
    rw [ih, step, partialSum_succ, summand_succ]
    simp only [ofReal_exact]
    push_cast
    rfl

theorem settled_stateAfter_iff (tolerance : ℝ) (z : ℂ) (n : ℕ) :
    (stateAfter z n).settled tolerance = true ↔ Negligible tolerance z n := by
  rw [stateAfter_eq, settled, decide_eq_true_iff]
  rfl

/-! ### Growth of the terms -/

theorem norm_summand (z : ℂ) (n : ℕ) : ‖summand z n‖ = n.factorial / ‖z‖ ^ n := by
  simp [summand]

/-- Off the origin the terms grow without bound. -/
theorem tendsto_norm_summand {z : ℂ} (nonzero : z ≠ 0) :
    Tendsto (fun n => ‖summand z n‖) atTop atTop := by
  have size : 0 < ‖z‖ := norm_pos_iff.mpr nonzero
  have vanishing : Tendsto (fun n => ‖z‖ ^ n / n.factorial) atTop (𝓝[>] 0) := by
    rw [tendsto_nhdsWithin_iff]
    refine ⟨FloorSemiring.tendsto_pow_div_factorial_atTop ‖z‖, Eventually.of_forall fun n => ?_⟩
    exact div_pos (pow_pos size n) (Nat.cast_pos.mpr n.factorial_pos)
  refine vanishing.inv_tendsto_nhdsGT_zero.congr fun n => ?_
  rw [norm_summand, Pi.inv_apply, inv_div]

theorem not_tendsto_partialSum {z : ℂ} (nonzero : z ≠ 0) (s : ℂ) :
    ¬ Tendsto (partialSum z) atTop (𝓝 s) := by
  intro converges
  have vanishing : Tendsto (fun n => summand z (n + 1)) atTop (𝓝 (s - s)) := by
    refine (((tendsto_add_atTop_iff_nat 1).mpr converges).sub converges).congr fun n => ?_
    rw [partialSum_succ, add_sub_cancel_left]
  have growing := (tendsto_add_atTop_iff_nat 1).mpr (tendsto_norm_summand nonzero)
  exact not_tendsto_nhds_of_tendsto_atTop growing _ vanishing.norm

/-! ### The first ten terms from the radius 30 on -/

section
variable {z : ℂ} (outer : 30 ≤ ‖z‖)
include outer

theorem norm_summand_le (n : ℕ) : ‖summand z n‖ ≤ n.factorial / 30 ^ n := by
  rw [norm_summand]
  gcongr

/-- The first term is one, and the next ten take little of it away. -/
theorem le_norm_partialSum_ten : 0.95 ≤ ‖partialSum z 10‖ := by
  have others : ‖∑ j ∈ range 10, summand z (j + 1)‖ ≤ 0.05 :=
    calc ‖∑ j ∈ range 10, summand z (j + 1)‖
        ≤ ∑ j ∈ range 10, ((j + 1).factorial / 30 ^ (j + 1) : ℝ) :=
          norm_sum_le_of_le _ fun j _ => norm_summand_le outer (j + 1)
      _ ≤ 0.05 := by norm_num [sum_range_succ, Nat.factorial]
  have first : summand z 0 = 1 := by norm_num [summand]
  have split : partialSum z 10 = 1 - -∑ j ∈ range 10, summand z (j + 1) := by
    rw [partialSum, sum_range_succ', first]
    ring
  have reverse := norm_sub_norm_le (1 : ℂ) (-∑ j ∈ range 10, summand z (j + 1))
  rw [← split, norm_one, norm_neg] at reverse
  linarith

theorem negligible_ten : Negligible defaultTolerance z 10 := by
  have term := norm_summand_le outer 10
  have total := le_norm_partialSum_ten outer
  have tolerance : (defaultTolerance : ℝ) = 1e-8 := rfl
  unfold Negligible
  rw [tolerance]
  norm_num [Nat.factorial] at term ⊢
  linarith

/-- Up to the radius 100 the loop over the terms settles at the first that is negligible, one of the
first ten. -/
theorem exists_isLeast_negligible (inner : ‖z‖ ≤ 100) :
    ∃ n, n ≤ 10 ∧ IsLeast {m | 1 ≤ m ∧ Negligible defaultTolerance z m} n ∧
      asymptotic defaultTolerance z = pure ⟨Complex.exp (-z) / z * partialSum z n, n⟩ := by
  obtain ⟨n, ends, ended⟩ := CountedLoop.exists_endsWith
    (fun n s => s.step (R := ℝ) z n) (settled defaultTolerance) (initial (R := ℝ)) 99
  change CountedLoop.run _ _ 100 0 _ =
    ((stateAfter z n, n), (stateAfter z n).settled defaultTolerance) at ended
  have iff := settled_stateAfter_iff defaultTolerance z
  have early : n ≤ 10 := ends.le_of_settled (by norm_num) ((iff 10).mpr (negligible_ten outer))
  have settles : (stateAfter z n).settled defaultTolerance = true := by
    rcases ends.isLeast_or_last (by norm_num) with ⟨settles, -⟩ | ⟨-, last, -⟩
    · exact settles
    · omega
  refine ⟨n, early, ⟨⟨ends.one_le, (iff n).mp settles⟩, ?_⟩, ?_⟩
  · rintro m ⟨positive, negligible⟩
    exact ends.le_of_settled positive ((iff m).mpr negligible)
  · have within : ¬ (100.0 : ℝ) < ‖z‖ := by
      norm_num
      exact inner
    rw [settles, stateAfter_eq] at ended
    simp only [asymptotic, modulus_exact, if_neg within, run_eq_loop, ended, Prod.map]
    rw [cexp_exact, mul_div_assoc, mul_comm]
    rfl

end

end Asymptotic

open Asymptotic in
/-- The asymptotic series diverges for every argument. Yet from the radius 30 to the radius 100,
where it is used, it stops within ten terms, without a warning, at the first that is small beside
the sum up to it. -/
theorem asymptotic_settles :
    (∀ z : ℂ, 30 ≤ ‖z‖ → ‖z‖ ≤ 100 → ∃ n, n ≤ 10 ∧
      IsLeast {m | 1 ≤ m ∧ ‖summand z m‖ < 1e-8 * ‖partialSum z m‖} n ∧
      asymptotic defaultTolerance z = pure ⟨Complex.exp (-z) / z * partialSum z n, n⟩ ∧
      expInt z = pure (Complex.exp (-z) / z * partialSum z n)) ∧
    ∀ z : ℂ, z ≠ 0 → Tendsto (fun n => ‖summand z n‖) atTop atTop ∧
      ∀ s, ¬ Tendsto (partialSum z) atTop (𝓝 s) := by
  refine ⟨fun z outer inner => ?_, fun z nonzero =>
    ⟨tendsto_norm_summand nonzero, not_tendsto_partialSum nonzero⟩⟩
  obtain ⟨n, early, least, value⟩ := exists_isLeast_negligible outer inner
  refine ⟨n, early, least, value, ?_⟩
  rw [expInt_of_outer outer, value]
  rfl

open Asymptotic in
/-- On the imaginary axis, at the least radius of the series. -/
theorem asymptotic_settles_at_thirty_I :
    30 ≤ ‖(30 * Complex.I : ℂ)‖ ∧ ‖(30 * Complex.I : ℂ)‖ ≤ 100 ∧ (30 * Complex.I : ℂ) ≠ 0 ∧
    (∃ n, n ≤ 10 ∧ expInt (30 * Complex.I) =
      pure (Complex.exp (-(30 * Complex.I)) / (30 * Complex.I) * partialSum (30 * Complex.I) n)) ∧
    ∀ s, ¬ Tendsto (partialSum (30 * Complex.I)) atTop (𝓝 s) := by
  have size : ‖(30 * Complex.I : ℂ)‖ = 30 := by simp
  have outer : 30 ≤ ‖(30 * Complex.I : ℂ)‖ := size.ge
  have inner : ‖(30 * Complex.I : ℂ)‖ ≤ 100 := size.trans_le (by norm_num)
  have nonzero : (30 * Complex.I : ℂ) ≠ 0 := by simp
  obtain ⟨settles, diverges⟩ := asymptotic_settles
  obtain ⟨n, early, -, -, value⟩ := settles _ outer inner
  exact ⟨outer, inner, nonzero, ⟨n, early, value⟩, (diverges _ nonzero).2⟩

end LatticeGreen.ExponentialIntegral
