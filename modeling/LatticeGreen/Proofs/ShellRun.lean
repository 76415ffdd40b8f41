import LatticeGreen.Convergence
import LatticeGreen.Proofs.CellTiling
import Mathlib.Order.Bounds.Basic

/-!
# The course of a lattice sum

What a sum does is settled by the answers of its series. The rounds of a sum are its first block
and the shells after it; a sum that goes on for `k` rounds has asked for the first `k` of them in
order, without a first block that holds no cell, and its running sums are the sums of their
contributions. Where it stops is decided by the shells that pass the test of convergence.
-/
namespace LatticeGreen

/-- A sum to be taken: its series, the lattice it runs over and when it may stop. -/
structure Summation (R C : Type) where
  series : List Cell → Logged R (Contribution C)
  dimension : Int
  convergence : Convergence R
  excludeInner : Bool

namespace Summation
variable {R C : Type}

/-- The first block and then the shells around it. -/
def round (t : Summation R C) : Nat → List Cell
  | 0 => firstBlock t.dimension t.convergence t.excludeInner
  | k + 1 => Cell.shell t.dimension (t.convergence.firstRound + (k + 1 : Nat))

/-- A first block without cells is passed over. -/
def asks (t : Summation R C) : Nat → Bool
  | 0 => !(t.round 0).isEmpty
  | _ + 1 => true

/-- The first `k` rounds, as far as the series is asked for them. -/
def rounds (t : Summation R C) (k : Nat) : List (List Cell) :=
  ((List.range k).filter t.asks).map t.round

/-- The number of cells in the first `k` rounds. -/
def cellsIn (t : Summation R C) (k : Nat) : Nat := (t.rounds k).flatten.length

/-- What the series notes in the first `k` rounds. -/
def eventsIn (t : Summation R C) (k : Nat) : List (Event R) :=
  (t.rounds k).flatMap fun cells => (t.series cells).events

/-- Round `k` is asked for and the series calls it singular. -/
def SingularRound (t : Summation R C) (k : Nat) : Prop :=
  t.asks k = true ∧ (t.series (t.round k)).value.singular = true

/-- The innermost cells can be left out of the first block: there is one. -/
def Begins (t : Summation R C) : Prop := t.excludeInner = true → 0 ≤ t.convergence.firstRound

/-- The answer of the series over a list of cells. -/
def contribution (t : Summation R C) (cells : List Cell) : Slots C :=
  (t.series cells).value.slots

theorem rounds_succ (t : Summation R C) (k : Nat) :
    t.rounds (k + 1) = if t.asks k then t.rounds k ++ [t.round k] else t.rounds k := by
  unfold rounds
  rw [List.range_succ, List.filter_append, List.map_append]
  cases asked : t.asks k <;> simp [asked]

theorem rounds_shell (t : Summation R C) (k : Nat) :
    t.rounds (k + 2) = t.rounds (k + 1) ++ [t.round (k + 1)] := by
  rw [rounds_succ]
  rfl

theorem length_rounds_le (t : Summation R C) (k : Nat) : (t.rounds k).length ≤ k := by
  unfold rounds
  rw [List.length_map]
  refine (List.length_filter_le _ _).trans ?_
  simp

section
variable [OfScientific R] [ComplexFunctions R C] [Add C]

/-- The sums of the contributions of the first `k` rounds. -/
def summed (t : Summation R C) (k : Nat) : Slots C :=
  Slots.sum ((t.rounds k).map t.contribution)

/-- The running sums grow by the contribution of the next round. -/
theorem summed_succ (t : Summation R C) (k : Nat) :
    t.summed (k + 1) =
      if t.asks k then t.summed k + t.contribution (t.round k) else t.summed k := by
  unfold summed
  rw [rounds_succ]
  split
  · rw [List.map_append, Slots.sum, List.foldl_append]
    rfl
  · rfl

theorem summed_shell (t : Summation R C) (k : Nat) :
    t.summed (k + 2) = t.summed (k + 1) + t.contribution (t.round (k + 1)) := by
  rw [summed_succ]
  rfl

variable [Mul R] [Div R] [LT R] [DecidableLT R] [RealFunctions R] [Sub C]

/-- Shell `s` changes the running sums by less than one of the two tolerances. -/
def passing (t : Summation R C) (s : Nat) : Bool :=
  SumState.passes
    { values := t.summed (s + 1), lastValues := t.summed s, convergedRounds := 0, cellCount := 0
      shellCount := 0, maxRelativeDelta := none }
    t.convergence

/-- The last shells up to shell `s`, as many as are wanted, all pass. -/
def Settled (t : Summation R C) (s : Nat) : Prop :=
  t.convergence.convergedRounds ≤ s ∧
    ∀ i ≤ s, (s : Int) - t.convergence.convergedRounds < i → t.passing i = true

instance (t : Summation R C) (s : Nat) : Decidable (t.Settled s) :=
  inferInstanceAs (Decidable (_ ∧ _))

/-- After shell `s` the sums have settled or the cap on shells is reached. -/
def MayStop (t : Summation R C) (s : Nat) : Prop :=
  t.Settled s ∨ max 0 (t.convergence.maxShells - t.convergence.firstRound) ≤ s

instance (t : Summation R C) (s : Nat) : Decidable (t.MayStop s) :=
  inferInstanceAs (Decidable (_ ∨ _))

/-- Some shell is the first after which the sum may stop. -/
theorem exists_isLeast_mayStop (t : Summation R C) : ∃ s, IsLeast {s | t.MayStop s} s := by
  have capped : ∃ s, t.MayStop s :=
    ⟨(t.convergence.maxShells - t.convergence.firstRound).toNat, .inr (by omega)⟩
  exact ⟨Nat.find capped, Nat.find_spec capped, fun s stops => Nat.find_min' capped stops⟩

/-- How a sum ends: the number of rounds it goes through and its result. It stops after the first
shell after which it may, or at the first singular round before that; a singular round is asked for
and not counted. -/
inductive Ends (t : Summation R C) : Nat → LatticeSum C → Prop
  | stopped (s : Nat) (least : IsLeast {s | t.MayStop s} s)
      (regular : ∀ k ≤ s, ¬ t.SingularRound k) :
      Ends t (s + 1) ⟨t.summed (s + 1), t.cellsIn (s + 1), s, decide (t.Settled s), false⟩
  | singular (s k : Nat) (least : IsLeast {s | t.MayStop s} s) (reached : k ≤ s)
      (found : IsLeast {k | t.SingularRound k} k) :
      Ends t (k + 1) ⟨t.summed k, t.cellsIn k, (k - 1 : Nat), false, true⟩

/-- Every sum ends. -/
theorem exists_ends (t : Summation R C) : ∃ n result, t.Ends n result := by
  classical
  obtain ⟨s, least⟩ := t.exists_isLeast_mayStop
  by_cases regular : ∀ k ≤ s, ¬ t.SingularRound k
  · exact ⟨_, _, .stopped s least regular⟩
  · have some_singular : ∃ k, t.SingularRound k ∧ k ≤ s := by
      simpa only [not_forall, not_not, exists_prop, and_comm] using regular
    obtain ⟨k, singular, reached⟩ := some_singular
    have exists_singular : ∃ k, t.SingularRound k := ⟨k, singular⟩
    have first_singular : IsLeast {k | t.SingularRound k} (Nat.find exists_singular) :=
      ⟨Nat.find_spec exists_singular, fun j found => Nat.find_min' exists_singular found⟩
    exact ⟨_, _, .singular s _ least
      ((Nat.find_min' exists_singular singular).trans reached) first_singular⟩

theorem Ends.rounds_le {t : Summation R C} {n : Nat} {result : LatticeSum C}
    (ends : t.Ends n result) :
    (n : Int) ≤ 1 + max 0 (t.convergence.maxShells - t.convergence.firstRound) := by
  have capped : ∀ s, IsLeast {s | t.MayStop s} s →
      (s : Int) ≤ max 0 (t.convergence.maxShells - t.convergence.firstRound) := by
    intro s least
    have bound := least.2 (show t.MayStop _ from
      .inr (Int.self_le_toNat (max 0 (t.convergence.maxShells - t.convergence.firstRound))))
    omega
  cases ends with
  | stopped s least regular =>
    have := capped s least
    omega
  | singular s k least reached found =>
    have := capped s least
    omega

/-! ## The state after a shell -/

/-- The state after shell `s`, were no shell before it the last. -/
def stateAfter (t : Summation R C) : Nat → SumState R C
  | 0 =>
    let cells := t.round 0
    let s : SumState R C := if t.asks 0
      then SumState.initial.add (t.contribution cells) cells.length
      else SumState.initial
    s.snapshot
  | s + 1 =>
    let cells := t.round (s + 1)
    ((t.stateAfter s).add (t.contribution cells) cells.length).update t.convergence

/-- The state in which round `k` finds the sum. -/
def stateBefore (t : Summation R C) : Nat → SumState R C
  | 0 => SumState.initial
  | s + 1 => t.stateAfter s

/-- The state in which shell `s + 1` is tested. -/
def stateBeforeTest (t : Summation R C) (s : Nat) : SumState R C :=
  (t.stateAfter s).add (t.contribution (t.round (s + 1))) (t.round (s + 1)).length

theorem lastValues_stateAfter (t : Summation R C) (s : Nat) :
    (t.stateAfter s).lastValues = (t.stateAfter s).values := by
  cases s <;> rfl

theorem shellCount_stateAfter (t : Summation R C) (s : Nat) :
    (t.stateAfter s).shellCount = s := by
  induction s with
  | zero =>
    unfold stateAfter
    dsimp only
    split <;> rfl
  | succ s ih =>
    have counted : (t.stateAfter (s + 1)).shellCount = (t.stateAfter s).shellCount + 1 := rfl
    rw [counted, ih]
    omega

theorem values_stateAfter (t : Summation R C) (s : Nat) :
    (t.stateAfter s).values = t.summed (s + 1) := by
  induction s with
  | zero =>
    rw [summed_succ]
    unfold stateAfter
    dsimp only
    split <;> rfl
  | succ s ih =>
    rw [summed_shell, ← ih]
    rfl

theorem cellCount_stateAfter (t : Summation R C) (s : Nat) :
    (t.stateAfter s).cellCount = t.cellsIn (s + 1) := by
  induction s with
  | zero =>
    unfold stateAfter cellsIn
    dsimp only
    rw [rounds_succ]
    split
    · simp [rounds, SumState.add, SumState.snapshot, SumState.initial]
    · rfl
  | succ s ih =>
    have counted : (t.stateAfter (s + 1)).cellCount =
        (t.stateAfter s).cellCount + ((t.round (s + 1)).length : Int) := rfl
    have grown : t.cellsIn (s + 2) = t.cellsIn (s + 1) + (t.round (s + 1)).length := by
      unfold cellsIn
      rw [rounds_shell]
      simp
    rw [counted, ih, grown, Int.natCast_add]

/-- Shell `s + 1` is tested on the running sums before and after it. -/
theorem passes_stateBeforeTest (t : Summation R C) (s : Nat) :
    (t.stateBeforeTest s).passes t.convergence = t.passing (s + 1) := by
  have after : (t.stateBeforeTest s).values = t.summed (s + 2) := by
    rw [summed_shell, ← values_stateAfter]
    rfl
  have before : (t.stateBeforeTest s).lastValues = t.summed (s + 1) := by
    rw [← values_stateAfter, ← lastValues_stateAfter]
    rfl
  unfold passing
  rw [← after, ← before]
  rfl

/-- A shell that passes extends the run of passing shells by one. -/
theorem last_pass_succ (t : Summation R C) (s : Nat) (passed : t.passing (s + 1) = true)
    (r : Int) :
    (r ≤ (s + 1 : Nat) ∧ ∀ i ≤ s + 1, ((s + 1 : Nat) : Int) - r < i → t.passing i = true) ↔
      r - 1 ≤ s ∧ ∀ i ≤ s, (s : Int) - (r - 1) < i → t.passing i = true := by
  constructor
  · rintro ⟨enough, run⟩
    exact ⟨by omega, fun i low late => run i (by omega) (by omega)⟩
  · rintro ⟨enough, run⟩
    refine ⟨by omega, fun i low late => ?_⟩
    rcases Nat.lt_or_eq_of_le low with earlier | rfl
    · exact run i (by omega) (by omega)
    · exact passed

/-- A shell that fails leaves no run of passing shells. -/
theorem last_pass_of_failing (t : Summation R C) (s : Nat)
    (failed : ¬ t.passing (s + 1) = true) (r : Int) :
    (r ≤ (s + 1 : Nat) ∧ ∀ i ≤ s + 1, ((s + 1 : Nat) : Int) - r < i → t.passing i = true) ↔
      r ≤ 0 := by
  constructor
  · rintro ⟨enough, run⟩
    by_contra wanted
    exact failed (run (s + 1) (Nat.le_refl _) (by omega))
  · intro unwanted
    refine ⟨by omega, fun i low late => ?_⟩
    omega

/-- The counter of converged shells reaches `r` exactly when the last `r` shells all pass: a shell
that fails starts the run anew, and the first block is no shell. -/
theorem le_convergedRounds_iff (t : Summation R C) (r : Int) (s : Nat) :
    r ≤ (t.stateAfter s).convergedRounds ↔
      r ≤ s ∧ ∀ i ≤ s, (s : Int) - r < i → t.passing i = true := by
  -- A shell that passes asks one less of the shells before it, so `r` varies.
  induction s generalizing r with
  | zero =>
    have none : (t.stateAfter 0).convergedRounds = 0 := by
      unfold stateAfter
      dsimp only
      split <;> rfl
    rw [none]
    constructor
    · intro reached
      refine ⟨reached, fun i low late => ?_⟩
      omega
    · exact fun reached => reached.1
  | succ s ih =>
    have counted : (t.stateAfter (s + 1)).convergedRounds =
        if t.passing (s + 1) then (t.stateAfter s).convergedRounds + 1 else 0 := by
      rw [← passes_stateBeforeTest]
      rfl
    rw [counted]
    by_cases passed : t.passing (s + 1) = true
    · rw [if_pos passed, t.last_pass_succ s passed, ← ih (r - 1)]
      omega
    · rw [if_neg passed, t.last_pass_of_failing s passed]

theorem converged_stateAfter_iff (t : Summation R C) (s : Nat) :
    (t.stateAfter s).converged t.convergence = true ↔ t.Settled s := by
  unfold SumState.converged Settled
  rw [decide_eq_true_iff]
  exact t.le_convergedRounds_iff _ s

theorem converged_stateAfter_eq_false (t : Summation R C) {s : Nat} (unsettled : ¬ t.Settled s) :
    (t.stateAfter s).converged t.convergence = false := by
  rw [Bool.eq_false_iff, Ne, t.converged_stateAfter_iff]
  exact unsettled

/-- A sum that may not stop yet has room for another shell. -/
theorem lt_shellBudget (t : Summation R C) {s : Nat} (going : ¬ t.MayStop s) :
    s < t.convergence.shellBudget := by
  rw [MayStop, not_or] at going
  unfold Convergence.shellBudget
  omega

end

end Summation

end LatticeGreen
