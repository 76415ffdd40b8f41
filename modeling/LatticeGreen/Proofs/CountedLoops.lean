import LatticeGreen.ExponentialIntegral
import LatticeGreen.Proofs.ExactScalars
import Mathlib.Order.Bounds.Basic
import Mathlib.Order.Interval.Finset.Nat

/-!
# Loops that count their steps

Each expansion of the exponential integral goes on, step by step, until a state settles or the
budget is spent. Such a loop ends with the first step after which the state settles, or with the
last one, and its flag tells which of the two it was.
-/
namespace LatticeGreen

namespace CountedLoop
variable {σ : Type} (step : Nat → σ → σ) (settled : σ → Bool)

/-- The state after a number of steps. They are numbered from one. -/
def stateAfter (s : σ) : Nat → σ
  | 0 => s
  | n + 1 => step (n + 1) (stateAfter s n)

/-- Takes up to `budget` steps after the first `n`. The flag tells if the last state settled. -/
def run : (budget n : Nat) → σ → (σ × Nat) × Bool
  | 0, n, s => ((s, n), false)
  | budget + 1, n, s =>
    let s := step (n + 1) s
    if settled s then ((s, n + 1), true) else run budget (n + 1) s

/-- The first step after which the state settles, or the last one. -/
def EndsWith (s : σ) (last n : Nat) : Prop :=
  IsLeast {m | 1 ≤ m ∧ (settled (stateAfter step s m) ∨ m = last)} n

variable {step settled} {s : σ}

/-- The loop goes on from any state that was reached without settling. -/
theorem run_of_unsettled (budget q : Nat) (some_step : 1 ≤ q + budget)
    (unsettled : ∀ m, 1 ≤ m → m ≤ q → settled (stateAfter step s m) = false) :
    ∃ n, EndsWith step settled s (q + budget) n ∧
      run step settled budget q (stateAfter step s q) =
        ((stateAfter step s n, n), settled (stateAfter step s n)) := by
  induction budget generalizing q with
  | zero =>
    refine ⟨q, ⟨⟨some_step, Or.inr rfl⟩, ?_⟩, ?_⟩
    · rintro m ⟨positive, settles | last⟩
      · by_contra earlier
        rw [unsettled m positive (by omega)] at settles
        exact Bool.false_ne_true settles
      · omega
    · rw [unsettled q some_step le_rfl]
      rfl
  | succ budget ih =>
    unfold run
    change ∃ n, _ ∧ (if settled (stateAfter step s (q + 1)) then
      ((stateAfter step s (q + 1), q + 1), true) else _) = _
    by_cases settles : settled (stateAfter step s (q + 1))
    · rw [if_pos settles]
      refine ⟨q + 1, ⟨⟨by omega, Or.inl settles⟩, ?_⟩, by rw [settles]⟩
      rintro m ⟨positive, settles' | last⟩
      · by_contra earlier
        rw [unsettled m positive (by omega)] at settles'
        exact Bool.false_ne_true settles'
      · omega
    · have last : q + (budget + 1) = q + 1 + budget := by omega
      rw [if_neg settles, last]
      apply ih (q + 1) (by omega)
      intro m positive reached
      rcases Nat.le_succ_iff.mp reached with earlier | rfl
      · exact unsettled m positive earlier
      · exact Bool.eq_false_iff.mpr settles

variable (step settled) in
/-- What a loop of some steps gives: the state it ends with, the number of the last step, and
whether that state settled. -/
theorem exists_endsWith (s : σ) (budget : Nat) :
    ∃ n, EndsWith step settled s (budget + 1) n ∧ run step settled (budget + 1) 0 s =
      ((stateAfter step s n, n), settled (stateAfter step s n)) := by
  have ended : ∃ n, EndsWith step settled s (0 + (budget + 1)) n ∧
      run step settled (budget + 1) 0 (stateAfter step s 0) = _ :=
    run_of_unsettled (budget + 1) 0 (by omega) (by omega)
  rwa [Nat.zero_add] at ended

namespace EndsWith
variable {last n : Nat} (ends : EndsWith step settled s last n)
include ends

theorem one_le : 1 ≤ n := ends.1.1

theorem le (some_step : 1 ≤ last) : n ≤ last := ends.2 ⟨some_step, Or.inr rfl⟩

theorem le_of_settled {m : Nat} (positive : 1 ≤ m) (settles : settled (stateAfter step s m)) :
    n ≤ m := ends.2 ⟨positive, Or.inl settles⟩

/-- Either the step is the first one that settles, or it is the last one and none settles. -/
theorem isLeast_or_last (some_step : 1 ≤ last) :
    (settled (stateAfter step s n) = true ∧
      IsLeast {m | m ∈ Finset.Icc 1 last ∧ settled (stateAfter step s m)} n) ∨
    (settled (stateAfter step s n) = false ∧ n = last ∧
      ∀ m ∈ Finset.Icc 1 last, settled (stateAfter step s m) = false) := by
  have within := ends.le some_step
  cases settles : settled (stateAfter step s n) with
  | true =>
    refine Or.inl ⟨rfl, ⟨Finset.mem_Icc.mpr ⟨ends.one_le, within⟩, settles⟩, ?_⟩
    rintro m ⟨member, settles'⟩
    exact ends.le_of_settled (Finset.mem_Icc.mp member).1 settles'
  | false =>
    have final : n = last := by
      rcases ends.1.2 with settles' | final
      · rw [settles] at settles'
        exact absurd settles' Bool.false_ne_true
      · exact final
    refine Or.inr ⟨rfl, final, ?_⟩
    intro m member
    obtain ⟨positive, reached⟩ := Finset.mem_Icc.mp member
    by_contra settles'
    have first := ends.le_of_settled positive (Bool.not_eq_false _ ▸ settles')
    obtain rfl : m = n := by omega
    exact settles' settles

end EndsWith

end CountedLoop

/-! ## The loops of the expansions -/

namespace ExponentialIntegral

theorem PowerSeries.run_eq_loop (tolerance : ℝ) (z : ℂ) (budget n : Nat) (s : PowerSeries ℝ ℂ) :
    run tolerance z budget n s =
      (CountedLoop.run (fun n s => step z n s) (settled tolerance) budget n s).map
        (fun r => ⟨r.1.value, r.2⟩) id := by
  induction budget generalizing n s with
  | zero => rfl
  | succ budget ih =>
    unfold run CountedLoop.run
    dsimp only
    split
    · rfl
    · exact ih (n + 1) _

theorem Lentz.run_eq_loop (tolerance : ℝ) (z : ℂ) (budget j : Nat) (s : Lentz ℂ) :
    run tolerance z budget j s =
      (CountedLoop.run (fun j s => step tolerance z j s) (·.streak == 5) budget j s).map
        (fun r => ⟨r.1.value, r.2⟩) id := by
  induction budget generalizing j s with
  | zero => rfl
  | succ budget ih =>
    unfold run CountedLoop.run
    simp only [beq_iff_eq]
    split
    · rfl
    · exact ih (j + 1) _

theorem Asymptotic.run_eq_loop (tolerance : ℝ) (z : ℂ) (budget n : Nat) (s : Asymptotic ℂ) :
    run tolerance z budget n s =
      (CountedLoop.run (fun n s => step (R := ℝ) z n s) (settled tolerance) budget n s).map
        (fun r => ⟨r.1.total, r.2⟩) id := by
  induction budget generalizing n s with
  | zero => rfl
  | succ budget ih =>
    unfold run CountedLoop.run
    dsimp only
    split
    · rfl
    · exact ih (n + 1) _

end ExponentialIntegral

end LatticeGreen
