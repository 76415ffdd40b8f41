import LatticeGreen.Proofs.RecordedRun
import LatticeGreen.Double.Elementary

/-!
# Where a lattice sum stops

A sum goes on until the last shells have all passed the test of convergence or the cap on shells is
reached, unless a singular round comes first. Its result, the cells it asked for and what it noted
are determined by that.
-/
namespace LatticeGreen.Summation
variable {R C : Type} [OfScientific R] [ComplexFunctions R C] [Add C] [Mul R] [Div R] [LT R]
variable [DecidableLT R] [RealFunctions R] [Sub C]

theorem run_stopped (t : Summation R C) (description : String) (begins : t.Begins) (s : Nat)
    (least : IsLeast {s | t.MayStop s} s) (regular : ∀ k ≤ s, ¬ t.SingularRound k) :
    t.run description = Attempt.done
      (⟨t.summed (s + 1), t.cellsIn (s + 1), s, decide (t.Settled s), false⟩, t.rounds (s + 1))
      (t.eventsIn (s + 1) ++
        if t.Settled s then [] else [.sumNotConverged description s (t.cellsIn (s + 1))]) := by
  rw [t.run_of_ends description begins (.stopped s least regular)]
  unfold closingEvents
  simp only [Bool.or_false, decide_eq_true_iff]

theorem run_interrupted (t : Summation R C) (description : String) (begins : t.Begins)
    (s k : Nat) (least : IsLeast {s | t.MayStop s} s) (reached : k ≤ s)
    (found : IsLeast {k | t.SingularRound k} k) :
    t.run description = Attempt.done
      (⟨t.summed k, t.cellsIn k, (k - 1 : Nat), false, true⟩, t.rounds (k + 1))
      (t.eventsIn (k + 1)) := by
  rw [t.run_of_ends description begins (.singular s k least reached found)]
  unfold closingEvents
  simp only [Bool.or_true, if_true, List.append_nil]

/-- The stopping rule. Without a singular round a sum stops after the least shell up to which the
last `convergedRounds` shells all pass or which the cap allows as the last; it has converged in the
first case and closes with one warning otherwise. The first singular round up to there ends it at
once: the series is not asked again, nothing is added and no warning is left. A sum asks its series
once for the first block and once for each shell the cap allows, at most. -/
theorem run_stops_at_least_shell (t : Summation R C) (description : String)
    (begins : t.Begins) :
    ∃ s, IsLeast {s | t.MayStop s} s ∧
      ((∀ k ≤ s, ¬ t.SingularRound k) →
        t.run description = Attempt.done
          (⟨t.summed (s + 1), t.cellsIn (s + 1), s, decide (t.Settled s), false⟩,
            t.rounds (s + 1))
          (t.eventsIn (s + 1) ++
            if t.Settled s then [] else [.sumNotConverged description s (t.cellsIn (s + 1))])) ∧
      (∀ k ≤ s, IsLeast {k | t.SingularRound k} k →
        t.run description = Attempt.done
          (⟨t.summed k, t.cellsIn k, (k - 1 : Nat), false, true⟩, t.rounds (k + 1))
          (t.eventsIn (k + 1))) ∧
      ∃ result asked events, t.run description = Attempt.done (result, asked) events ∧
        (asked.length : Int) ≤
          1 + max 0 (t.convergence.maxShells - t.convergence.firstRound) := by
  obtain ⟨s, least⟩ := t.exists_isLeast_mayStop
  obtain ⟨n, result, ends⟩ := t.exists_ends
  have bounded : ((t.rounds n).length : Int) ≤
      1 + max 0 (t.convergence.maxShells - t.convergence.firstRound) := by
    have := t.length_rounds_le n
    have := ends.rounds_le
    omega
  refine ⟨s, least, t.run_stopped description begins s least, fun k reached found => ?_, ?_⟩
  · exact t.run_interrupted description begins s k least reached found
  · exact ⟨result, t.rounds n, _, t.run_of_ends description begins ends, bounded⟩

/-- A sum from the origin on whose third shell is singular. -/
def singularThirdShell : Summation Float (Cartesian Float) where
  series cells := pure ⟨Slots.zero, cells.any fun cell => decide (cell.radius = 3)⟩
  dimension := 2
  convergence :=
    { absoluteTolerance := 0.0, relativeTolerance := 1.0e-8, slotFloor := 1.0e-10
      firstRound := 0, maxShells := 10, convergedRounds := 5 }
  excludeInner := false

theorem run_singularThirdShell :
    singularThirdShell.run "sum" = Attempt.done
      (⟨singularThirdShell.summed 3, 25, 2, false, true⟩, singularThirdShell.rounds 4) [] := by
  obtain ⟨s, least, -, interrupted, -⟩ :=
    singularThirdShell.run_stops_at_least_shell "sum" (fun _ => by decide)
  have reached : 3 ≤ s := by
    rcases least.1 with settled | capped
    · have enough : (5 : Int) ≤ s := settled.1
      omega
    · have cap : (max 0 (10 - 0) : Int) ≤ s := capped
      omega
  have found : IsLeast {k | singularThirdShell.SingularRound k} 3 := by
    refine ⟨⟨by decide, by decide⟩, fun k singular => ?_⟩
    by_contra earlier
    have regular : ∀ k < 3, (singularThirdShell.series
        (singularThirdShell.round k)).value.singular = false := by decide
    have answered := singular.2
    rw [regular k (by omega)] at answered
    cases answered
  exact interrupted 3 reached found

end LatticeGreen.Summation
