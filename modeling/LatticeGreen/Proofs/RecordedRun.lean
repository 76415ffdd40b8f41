import LatticeGreen.Proofs.ShellRun

/-!
# Runs of a lattice sum

What a sum does is followed through every monad at once: the effects of a series are those of the
rounds the sum goes through, in their order, and of no other list of cells. A series that keeps what
it is asked for is one of them; its run shows the cells that were handed over, the result and what
was noted.
-/
namespace LatticeGreen

/-- The events with which a sum closes: one warning unless it has converged or met a singular
round. -/
def closingEvents {C : Type} (description : String) (result : LatticeSum C) : List (Event R) :=
  if result.converged || result.singular then []
  else [.sumNotConverged description result.shellCount result.cellCount]

namespace Summation
variable {R C : Type}

/-! ## Recorded series -/

/-- A series that keeps the lists of cells it is asked for. -/
def recording (series : List Cell → Logged R (Contribution C)) (cells : List Cell) :
    StateT (List (List Cell)) (Attempt R) (Contribution C) := do
  modify (· ++ [cells])
  liftM (series cells)

/-- What a recorded series does besides answering. -/
def keep (t : Summation R C) (cells : List Cell) : StateT (List (List Cell)) (Attempt R) Unit :=
  fun asked => Attempt.done ((), asked ++ [cells]) (t.series cells).events

theorem run_recording (t : Summation R C) (cells : List Cell) (asked : List (List Cell)) :
    (recording t.series cells : StateT _ (Attempt R) _).run asked =
      Attempt.done ((t.series cells).value, asked ++ [cells]) (t.series cells).events := by
  change ((liftM (t.series cells) : Attempt R _) >>= fun a => pure (a, asked ++ [cells])) = _
  rw [Attempt.liftM_eq_done, Attempt.done_bind, Attempt.pure_eq_done, Attempt.after_done,
    List.append_nil]

/-- The series of a sum that does `effect` for each list of cells it is asked for. -/
def answering {m : Type → Type} [Monad m] (t : Summation R C) (effect : List Cell → m Unit)
    (cells : List Cell) : m (Contribution C) := do
  effect cells
  return (t.series cells).value

theorem recording_eq (t : Summation R C) :
    (recording t.series : _ → StateT _ (Attempt R) _) = t.answering t.keep := by
  funext cells
  apply StateT.ext
  intro asked
  have answered : (t.answering t.keep cells).run asked =
      Attempt.done ((), asked ++ [cells]) (t.series cells).events >>=
        fun p => pure ((t.series cells).value, p.2) := rfl
  rw [run_recording, answered, Attempt.done_bind, Attempt.pure_eq_done, Attempt.after_done,
    List.append_nil]

theorem run_forM_keep (t : Summation R C) (blocks asked : List (List Cell)) :
    (blocks.forM t.keep).run asked =
      Attempt.done ((), asked ++ blocks) (blocks.flatMap fun cells => (t.series cells).events) := by
  induction blocks generalizing asked with
  | nil =>
    rw [List.append_nil]
    rfl
  | cons cells blocks ih =>
    have kept : (t.keep cells).run asked =
        Attempt.done ((), asked ++ [cells]) (t.series cells).events := rfl
    rw [List.forM_eq_forM, List.forM_cons, StateT.run_bind, kept, Attempt.done_bind,
      ← List.forM_eq_forM, ih, Attempt.after_done, List.append_assoc, List.singleton_append,
      List.flatMap_cons]

section
variable [OfScientific R] [ComplexFunctions R C] [Add C] [Mul R] [Div R] [LT R] [DecidableLT R]
variable [RealFunctions R] [Sub C]

/-- The run of a sum, with the lists of cells its series was asked for. -/
def run (t : Summation R C) (description : String) : Attempt R (LatticeSum C × List (List Cell)) :=
  (accumulate (recording t.series : _ → StateT _ (Attempt R) _) t.dimension t.convergence
    description t.excludeInner).run []

/-! ## Shell after shell -/

section
variable {m : Type → Type} [Monad m]

/-- The shells of a sum after shell `s`, with a budget for so many. -/
def shellsFrom (t : Summation R C) (effect : List Cell → m Unit) (budget s : Nat) :
    m (SumState R C × Bool) :=
  sumShells (t.answering effect) t.dimension t.convergence (fun _ => pure ()) budget
    (t.convergence.firstRound + (s + 1 : Nat)) (t.stateAfter s)

/-- The whole of a sum up to its last shell. -/
def blockAndShells (t : Summation R C) (effect : List Cell → m Unit) :
    m (SumState R C × Bool) :=
  sumLattice (t.answering effect) t.dimension t.convergence t.excludeInner (fun _ => pure ())
    (fun _ => pure ())

theorem shellsFrom_of_converged (t : Summation R C) (effect : List Cell → m Unit)
    (budget s : Nat) (converged : (t.stateAfter s).converged t.convergence = true) :
    t.shellsFrom effect budget s = pure (t.stateAfter s, false) := by
  unfold shellsFrom
  cases budget with
  | zero => rfl
  | succ budget => rw [sumShells, if_pos converged]

theorem shellsFrom_zero (t : Summation R C) (effect : List Cell → m Unit) (s : Nat) :
    t.shellsFrom effect 0 s = pure (t.stateAfter s, false) := rfl

variable [LawfulMonad m]

theorem shellsFrom_of_singular (t : Summation R C) (effect : List Cell → m Unit) (budget s : Nat)
    (going : (t.stateAfter s).converged t.convergence = false)
    (singular : (t.series (t.round (s + 1))).value.singular = true) :
    t.shellsFrom effect (budget + 1) s = do
      effect (t.round (s + 1))
      return (t.stateAfter s, true) := by
  have asked : Cell.shell t.dimension (t.convergence.firstRound + (s + 1 : Nat)) =
    t.round (s + 1) := rfl
  unfold shellsFrom
  simp only [sumShells, going, asked, answering, singular, Bool.false_eq_true, if_false, if_true,
    bind_assoc, pure_bind]

theorem shellsFrom_succ (t : Summation R C) (effect : List Cell → m Unit) (budget s : Nat)
    (going : (t.stateAfter s).converged t.convergence = false)
    (regular : (t.series (t.round (s + 1))).value.singular = false) :
    t.shellsFrom effect (budget + 1) s = (do
      effect (t.round (s + 1))
      t.shellsFrom effect budget (s + 1)) := by
  have asked : Cell.shell t.dimension (t.convergence.firstRound + (s + 1 : Nat)) =
    t.round (s + 1) := rfl
  have outward : t.convergence.firstRound + ((s + 1 + 1 : Nat) : Int) =
      t.convergence.firstRound + (s + 1 : Nat) + 1 := by omega
  unfold shellsFrom
  rw [outward]
  simp only [sumShells, going, asked, answering, regular, Bool.false_eq_true, if_false,
    bind_assoc, pure_bind]
  rfl

/-- A first block that is asked for and singular ends the sum before it has begun. -/
theorem blockAndShells_of_singular (t : Summation R C) (effect : List Cell → m Unit)
    (singular : t.SingularRound 0) :
    t.blockAndShells effect = do
      effect (t.round 0)
      return (SumState.initial, true) := by
  have asked : firstBlock t.dimension t.convergence t.excludeInner = t.round 0 := rfl
  have held : (t.round 0).isEmpty = false := by simpa [asks] using singular.1
  unfold blockAndShells
  simp only [sumLattice, asked, held, answering, singular.2, Bool.false_eq_true, if_false, if_true,
    bind_assoc, pure_bind]

theorem blockAndShells_begin (t : Summation R C) (effect : List Cell → m Unit)
    (regular : ¬ t.SingularRound 0) :
    t.blockAndShells effect = (do
      (t.rounds 1).forM effect
      t.shellsFrom effect t.convergence.shellBudget 0) := by
  have asked : firstBlock t.dimension t.convergence t.excludeInner = t.round 0 := rfl
  have one : t.rounds 1 = if !(t.round 0).isEmpty then [t.round 0] else [] := t.rounds_succ 0
  unfold blockAndShells shellsFrom stateAfter asks
  rw [one]
  cases held : (t.round 0).isEmpty with
  | true =>
    simp only [sumLattice, asked, held, Bool.not_true, Bool.false_eq_true, if_false, if_true,
      List.forM_eq_forM, List.forM_nil, pure_bind]
    rfl
  | false =>
    have answered : (t.series (t.round 0)).value.singular = false := by
      simp only [SingularRound, not_and, Bool.not_eq_true] at regular
      exact regular (by simpa [asks] using held)
    simp only [sumLattice, asked, held, answering, answered, Bool.not_false, Bool.false_eq_true,
      if_false, if_true, List.forM_eq_forM, List.forM_cons, List.forM_nil, bind_assoc, pure_bind]
    rfl

/-- As long as no round is singular and the sums have not converged, a sum asks for one round after
the other. -/
theorem blockAndShells_advance (t : Summation R C) (effect : List Cell → m Unit)
    (s : Nat) (within : s ≤ t.convergence.shellBudget)
    (going : ∀ j < s, ¬ t.Settled j) (regular : ∀ k ≤ s, ¬ t.SingularRound k) :
    t.blockAndShells effect = (do
      (t.rounds (s + 1)).forM effect
      t.shellsFrom effect (t.convergence.shellBudget - s) s) := by
  induction s with
  | zero => exact t.blockAndShells_begin effect (regular 0 (Nat.le_refl 0))
  | succ s ih =>
    have sofar := ih (by omega) (fun j below => going j (by omega))
      (fun k below => regular k (by omega))
    have budget : t.convergence.shellBudget - s = t.convergence.shellBudget - (s + 1) + 1 := by
      omega
    have unsettled : (t.stateAfter s).converged t.convergence = false :=
      t.converged_stateAfter_eq_false (going s (by omega))
    have answered : (t.series (t.round (s + 1))).value.singular = false := by
      rw [Bool.eq_false_iff]
      exact fun singular => regular (s + 1) (Nat.le_refl _) ⟨rfl, singular⟩
    rw [sofar, budget, t.shellsFrom_succ effect _ s unsettled answered, t.rounds_shell]
    simp only [List.forM_eq_forM, List.forM_append, List.forM_cons, List.forM_nil, bind_assoc,
      pure_bind]

theorem blockAndShells_stopped (t : Summation R C) (effect : List Cell → m Unit)
    (s : Nat) (least : IsLeast {s | t.MayStop s} s)
    (regular : ∀ k ≤ s, ¬ t.SingularRound k) :
    t.blockAndShells effect = (do
      (t.rounds (s + 1)).forM effect
      return (t.stateAfter s, false)) := by
  have within : s ≤ t.convergence.shellBudget := by
    refine least.2 (show t.MayStop _ from .inr ?_)
    unfold Convergence.shellBudget
    omega
  have going : ∀ j < s, ¬ t.Settled j := by
    intro j below settled
    have : s ≤ j := least.2 (show t.MayStop j from .inl settled)
    omega
  rw [t.blockAndShells_advance effect s within going regular]
  rcases least.1 with settled | capped
  · rw [shellsFrom_of_converged _ _ _ _ ((t.converged_stateAfter_iff s).mpr settled)]
  · have spent : t.convergence.shellBudget - s = 0 := by
      unfold Convergence.shellBudget
      omega
    rw [spent, shellsFrom_zero]

theorem blockAndShells_interrupted (t : Summation R C) (effect : List Cell → m Unit)
    (s k : Nat) (least : IsLeast {s | t.MayStop s} s)
    (reached : k ≤ s) (found : IsLeast {k | t.SingularRound k} k) :
    t.blockAndShells effect = (do
      (t.rounds (k + 1)).forM effect
      return (t.stateBefore k, true)) := by
  have earlier : ∀ j < k, ¬ t.SingularRound j := by
    intro j below singular
    have : k ≤ j := found.2 singular
    omega
  cases k with
  | zero =>
    have one : t.rounds 1 = [t.round 0] := by
      rw [rounds_succ, if_pos found.1.1]
      rfl
    rw [t.blockAndShells_of_singular effect found.1, one]
    simp only [List.forM_eq_forM, List.forM_cons, List.forM_nil, bind_assoc, pure_bind]
    rfl
  | succ j =>
    have going : ∀ i ≤ j, ¬ t.MayStop i := by
      intro i below stops
      have : s ≤ i := least.2 stops
      omega
    have uncapped := t.lt_shellBudget (going j (Nat.le_refl j))
    have budget : t.convergence.shellBudget - j = t.convergence.shellBudget - (j + 1) + 1 := by
      omega
    have unsettled : (t.stateAfter j).converged t.convergence = false :=
      t.converged_stateAfter_eq_false fun settled => going j (Nat.le_refl j) (.inl settled)
    rw [t.blockAndShells_advance effect j (by omega)
        (fun i below settled => going i (by omega) (.inl settled))
        (fun i below => earlier i (by omega)),
      budget, t.shellsFrom_of_singular effect _ j unsettled found.1.2, t.rounds_shell]
    simp only [List.forM_eq_forM, List.forM_append, List.forM_cons, List.forM_nil, bind_assoc,
      pure_bind]
    rfl

theorem accumulate_answering [MonadLiftT (Attempt R) m] [LawfulMonadLiftT (Attempt R) m]
    (t : Summation R C) (effect : List Cell → m Unit) (description : String) (begins : t.Begins) :
    accumulate (t.answering effect) t.dimension t.convergence description t.excludeInner = (do
      let ended ← t.blockAndShells effect
      let result := ended.1.result t.convergence ended.2
      (liftM (Attempt.done () (closingEvents description result) : Attempt R Unit) : m Unit)
      return result) := by
  have inside : (t.excludeInner && decide (t.convergence.firstRound < 0)) = false := by
    rw [Bool.and_eq_false_imp, decide_eq_false_iff_not, Int.not_lt]
    exact begins
  have quiet : (Attempt.ofExcept (.ok ()) : Attempt R Unit) = pure () := rfl
  unfold accumulate blockAndShells
  simp only [inside, Obstacles.pass, Option.elim_none, SumState.passLimits_none,
    SumState.passObstacles_none, quiet, liftM_pure, Bool.false_eq_true, if_false, pure_bind]
  congr 1
  funext ended
  obtain ⟨s, singular⟩ := ended
  -- A sum that has converged or was interrupted closes without a warning.
  have silent : (Attempt.done () [] : Attempt R Unit) = pure () := rfl
  have warned : ∀ event, (Attempt.done () [event] : Attempt R Unit) = Attempt.note event :=
    fun _ => rfl
  cases singular with
  | true => simp [closingEvents, SumState.result, silent]
  | false =>
    cases finished : s.converged t.convergence with
    | true => simp [closingEvents, SumState.result, finished, silent]
    | false => simp [closingEvents, SumState.result, finished, warned, SumState.shortfall]

/-- The run of a sum: it does the effect of the series for the rounds it asks for, each in its turn,
and has the result its end gives. -/
theorem accumulate_of_ends [MonadLiftT (Attempt R) m] [LawfulMonadLiftT (Attempt R) m]
    (t : Summation R C) (effect : List Cell → m Unit) (description : String) (begins : t.Begins)
    {n : Nat} {result : LatticeSum C} (ends : t.Ends n result) :
    accumulate (t.answering effect) t.dimension t.convergence description t.excludeInner = (do
      (t.rounds n).forM effect
      (liftM (Attempt.done () (closingEvents description result) : Attempt R Unit) : m Unit)
      return result) := by
  rw [t.accumulate_answering effect description begins]
  cases ends with
  | stopped s least regular =>
    have verdict : (t.stateAfter s).converged t.convergence = decide (t.Settled s) := by
      rw [Bool.eq_iff_iff, decide_eq_true_iff]
      exact t.converged_stateAfter_iff s
    have reported : (t.stateAfter s).result t.convergence false =
        ⟨t.summed (s + 1), t.cellsIn (s + 1), s, decide (t.Settled s), false⟩ := by
      simp only [SumState.result, t.values_stateAfter, t.cellCount_stateAfter,
        t.shellCount_stateAfter, verdict, Bool.not_false, Bool.true_and]
    rw [t.blockAndShells_stopped effect s least regular]
    simp only [bind_assoc, pure_bind, reported]
  | singular s k least reached found =>
    have reported : (t.stateBefore k).result t.convergence true =
        ⟨t.summed k, t.cellsIn k, (k - 1 : Nat), false, true⟩ := by
      cases k with
      | zero => rfl
      | succ j =>
        simp only [stateBefore, SumState.result, t.values_stateAfter,
          t.cellCount_stateAfter, t.shellCount_stateAfter, Bool.not_true, Bool.false_and,
          Nat.add_sub_cancel]
    rw [t.blockAndShells_interrupted effect s k least reached found]
    simp only [bind_assoc, pure_bind, reported]

end

/-! ## What a recorded run shows -/

/-- A sum asks its series for its rounds, logs what the series notes and closes. -/
theorem run_of_ends (t : Summation R C) (description : String) (begins : t.Begins) {n : Nat}
    {result : LatticeSum C} (ends : t.Ends n result) :
    t.run description = Attempt.done (result, t.rounds n)
      (t.eventsIn n ++ closingEvents description result) := by
  have closed : ∀ asked : List (List Cell),
      (do (liftM (Attempt.done () (closingEvents description result) : Attempt R Unit) :
            StateT (List (List Cell)) (Attempt R) Unit)
          pure result).run asked =
        Attempt.done (result, asked) (closingEvents description result) := by
    intro asked
    simp only [bind_pure_comp, StateT.run_map, StateT.run_monadLift, monadLift_self,
      Functor.map_map]
    exact Attempt.map_done _ _ _
  unfold run
  rw [t.recording_eq, t.accumulate_of_ends t.keep description begins ends, StateT.run_bind,
    t.run_forM_keep, Attempt.done_bind, List.nil_append, closed, Attempt.after_done, eventsIn]

/-- Without a first block to leave the innermost cells out of, nothing is summed. -/
theorem run_of_not_begins (t : Summation R C) (description : String) (stuck : ¬ t.Begins) :
    t.run description = Attempt.fail .emptyBlock := by
  have outside : (t.excludeInner && decide (t.convergence.firstRound < 0)) = true := by
    simpa [Begins] using stuck
  unfold run accumulate
  simp only [outside, if_true]
  rfl

/-- The result of a run is that of an end of the sum. -/
theorem ends_of_run (t : Summation R C) (description : String) {result : LatticeSum C}
    {asked : List (List Cell)} {events : List (Event R)}
    (ran : t.run description = Attempt.done (result, asked) events) :
    t.Begins ∧ ∃ n, t.Ends n result ∧ asked = t.rounds n := by
  by_cases begins : t.Begins
  · obtain ⟨n, result', ends⟩ := t.exists_ends
    rw [t.run_of_ends description begins ends, Attempt.done_inj, Prod.mk.injEq] at ran
    obtain ⟨⟨rfl, rfl⟩, -⟩ := ran
    exact ⟨begins, n, ends, rfl⟩
  · rw [t.run_of_not_begins description begins] at ran
    exact absurd ran (Attempt.fail_ne_done _ _ _)

/-- Recording leaves a sum as it is. -/
theorem map_fst_run (t : Summation R C) (description : String) (begins : t.Begins) :
    Prod.fst <$> t.run description =
      accumulate (fun cells => (liftM (t.series cells) : Attempt R _)) t.dimension t.convergence
        description t.excludeInner := by
  obtain ⟨n, result, ends⟩ := t.exists_ends
  let notes (cells : List Cell) : Attempt R Unit := Attempt.done () (t.series cells).events
  have noted : (fun cells => (liftM (t.series cells) : Attempt R _)) = t.answering notes := by
    funext cells
    have answered : t.answering notes cells = Attempt.done () (t.series cells).events >>=
        fun _ => pure (t.series cells).value := rfl
    rw [answered, Attempt.done_bind, Attempt.pure_eq_done, Attempt.after_done,
      Attempt.liftM_eq_done, List.append_nil]
  have all : ∀ blocks : List (List Cell), blocks.forM notes =
      Attempt.done () (blocks.flatMap fun cells => (t.series cells).events) := by
    intro blocks
    induction blocks with
    | nil => rfl
    | cons cells blocks ih =>
      rw [List.forM_eq_forM, List.forM_cons, ← List.forM_eq_forM, ih, List.flatMap_cons,
        Attempt.done_bind, Attempt.after_done]
  rw [noted, t.accumulate_of_ends notes description begins ends,
    t.run_of_ends description begins ends, all, Attempt.done_bind, Attempt.map_done]
  change _ = Attempt.after _ (Attempt.done () _ >>= fun _ => pure result)
  rw [Attempt.done_bind, Attempt.pure_eq_done, Attempt.after_done, Attempt.after_done,
    List.append_nil, eventsIn]

end

end Summation

end LatticeGreen
