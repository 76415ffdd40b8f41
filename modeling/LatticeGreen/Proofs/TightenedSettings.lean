import LatticeGreen.Proofs.ExactScalars
import LatticeGreen.Proofs.StoppingRule

/-!
# Tightened settings

Where arithmetic does not round, a shell that passes the test of convergence under tighter settings
passes under looser ones too. So a sum under the tighter settings goes through all rounds that the
looser ones ask for, and stops or meets a singular round there or later.
-/
namespace LatticeGreen

/-- Settings with the same first block under which no sum can stop earlier. A floor of zero or more
keeps slots of no magnitude out of the relative test. -/
structure Convergence.Tightens (tight loose : Convergence ℝ) : Prop where
  firstRound : tight.firstRound = loose.firstRound
  relativeTolerance : tight.relativeTolerance ≤ loose.relativeTolerance
  absoluteTolerance : tight.absoluteTolerance ≤ loose.absoluteTolerance
  slotFloor : tight.slotFloor ∈ Set.Icc 0 loose.slotFloor
  convergedRounds : loose.convergedRounds ≤ tight.convergedRounds
  maxShells : loose.maxShells ≤ tight.maxShells

/-! ## The test of convergence -/

theorem largest_lt_iff (x : ℝ) (xs : List ℝ) (bound : ℝ) :
    largest x xs < bound ↔ ∀ y ∈ x :: xs, y < bound := by
  induction xs generalizing x with
  | nil => simp [largest]
  | cons y ys ih =>
    have step : largest x (y :: ys) = largest (max x y) ys := rfl
    rw [step, ih]
    simp only [List.mem_cons, forall_eq_or_imp, max_lt_iff, and_assoc]

theorem le_largest {x y : ℝ} {xs : List ℝ} (member : y ∈ x :: xs) : y ≤ largest x xs := by
  by_contra above
  rw [not_le, largest_lt_iff] at above
  exact lt_irrefl y (above y member)

namespace SumState
variable (s : SumState ℝ ℂ)

theorem magnitudes_nonneg {m : ℝ} (member : m ∈ s.magnitudes.toList) : 0 ≤ m := by
  rw [magnitudes, Slots.toList_map] at member
  obtain ⟨z, -, rfl⟩ := List.mem_map.mp member
  exact norm_nonneg z

theorem deltas_nonneg {d : ℝ} (member : d ∈ s.deltas.toList) : 0 ≤ d := by
  rw [deltas, Slots.toList_map] at member
  obtain ⟨z, -, rfl⟩ := List.mem_map.mp member
  exact norm_nonneg z

theorem largest_magnitude_nonneg : 0 ≤ s.magnitudes.largest := by
  have first : s.magnitudes.value ∈ s.magnitudes.toList := List.mem_cons_self
  exact (s.magnitudes_nonneg first).trans (le_largest first)

theorem not_largest_delta_neg : ¬ s.deltas.largest < 0 := by
  have first : s.deltas.value ∈ s.deltas.toList := List.mem_cons_self
  exact ((s.deltas_nonneg first).trans (le_largest first)).not_gt

/-- The relative changes are those of the slots whose magnitude exceeds the floor. -/
theorem mem_relativeDeltas_iff (slotFloor change : ℝ) :
    change ∈ s.relativeDeltas slotFloor ↔
      ∃ d m, (d, m) ∈ s.deltas.toList.zip s.magnitudes.toList ∧
        slotFloor * s.magnitudes.largest < m ∧ d / m = change := by
  unfold relativeDeltas
  simp only [List.mem_filterMap, Prod.exists, Option.ite_none_right_eq_some, Option.some.injEq]

theorem relativeDeltas_nonneg {slotFloor change : ℝ}
    (member : change ∈ s.relativeDeltas slotFloor) :
    0 ≤ change := by
  obtain ⟨d, m, slot, -, rfl⟩ := (s.mem_relativeDeltas_iff slotFloor change).mp member
  have both := List.of_mem_zip slot
  exact div_nonneg (s.deltas_nonneg both.1) (s.magnitudes_nonneg both.2)

/-- A lower floor leaves no significant slot out. -/
theorem relativeDeltas_subset {low high : ℝ} (lower : low ≤ high) :
    s.relativeDeltas high ⊆ s.relativeDeltas low := by
  intro change member
  rw [mem_relativeDeltas_iff] at member ⊢
  obtain ⟨d, m, slot, significant, quotient⟩ := member
  have floors := mul_le_mul_of_nonneg_right lower s.largest_magnitude_nonneg
  exact ⟨d, m, slot, floors.trans_lt significant, quotient⟩

/-- The relative change is zero without a significant slot, so a tolerance that it meets is positive
either way. -/
theorem relativeChange_lt_iff (slotFloor tolerance : ℝ) :
    s.relativeChange slotFloor < tolerance ↔
      0 < tolerance ∧ ∀ change ∈ s.relativeDeltas slotFloor, change < tolerance := by
  have zero : (0.0 : ℝ) = 0 := by norm_num
  have nonneg : ∀ change ∈ s.relativeDeltas slotFloor, 0 ≤ change :=
    fun _ member => s.relativeDeltas_nonneg member
  unfold relativeChange
  cases changes : s.relativeDeltas slotFloor with
  | nil => simp [zero]
  | cons x xs =>
    rw [changes] at nonneg
    change largest x xs < tolerance ↔ _
    rw [largest_lt_iff]
    constructor
    · intro below
      exact ⟨(nonneg x List.mem_cons_self).trans_lt (below x List.mem_cons_self), below⟩
    · exact fun below => below.2

theorem passes_iff (c : Convergence ℝ) : s.passes c = true ↔
    s.deltas.largest < c.absoluteTolerance ∨
      s.relativeChange c.slotFloor < c.relativeTolerance := by
  unfold passes
  rw [Bool.or_eq_true, decide_eq_true_iff, decide_eq_true_iff]

theorem passes_of_tightens {tight loose : Convergence ℝ} (tighter : tight.Tightens loose)
    (passed : s.passes tight = true) : s.passes loose = true := by
  rw [passes_iff] at passed ⊢
  rcases passed with absolute | relative
  · left
    exact absolute.trans_le tighter.absoluteTolerance
  · right
    rw [relativeChange_lt_iff] at relative ⊢
    obtain ⟨positive, below⟩ := relative
    constructor
    · exact positive.trans_le tighter.relativeTolerance
    · intro change member
      have kept := s.relativeDeltas_subset tighter.slotFloor.2 member
      exact (below change kept).trans_le tighter.relativeTolerance

end SumState

namespace Summation

/-! ## Rounds that come first -/

section
variable {R C : Type}

theorem rounds_prefix (t : Summation R C) {m n : ℕ} (earlier : m ≤ n) :
    t.rounds m <+: t.rounds n := by
  induction n, earlier using Nat.le_induction with
  | base => exact List.prefix_refl _
  | succ n _ ih =>
    rw [rounds_succ]
    split
    · exact ih.trans (List.prefix_append _ _)
    · exact ih

theorem cellsIn_mono (t : Summation R C) {m n : ℕ} (earlier : m ≤ n) :
    t.cellsIn m ≤ t.cellsIn n := by
  obtain ⟨later, rounds⟩ := t.rounds_prefix earlier
  unfold cellsIn
  rw [← rounds, List.flatten_append, List.length_append]
  exact Nat.le_add_right _ _

/-- The same sum under other settings. -/
def under (t : Summation R C) (c : Convergence R) : Summation R C := { t with convergence := c }

section
variable {t : Summation R C} {c : Convergence R} (same : c.firstRound = t.convergence.firstRound)
include same

/-- The rounds depend on the settings through the first block only. -/
theorem round_under : (t.under c).round = t.round := by
  funext k
  cases k with
  | zero =>
    unfold round firstBlock under
    rw [same]
  | succ k =>
    unfold round under
    rw [same]

theorem asks_under : (t.under c).asks = t.asks := by
  funext k
  unfold asks
  rw [round_under same]

theorem rounds_under : (t.under c).rounds = t.rounds := by
  funext k
  unfold rounds
  rw [round_under same, asks_under same]

theorem cellsIn_under : (t.under c).cellsIn = t.cellsIn := by
  funext k
  unfold cellsIn
  rw [rounds_under same]

theorem singularRound_under : (t.under c).SingularRound = t.SingularRound := by
  funext k
  unfold SingularRound
  rw [round_under same, asks_under same]
  rfl

theorem summed_under [OfScientific R] [ComplexFunctions R C] [Add C] :
    (t.under c).summed = t.summed := by
  funext k
  unfold summed
  rw [rounds_under same]
  rfl

end

end

/-! ## Where the two sums stop -/

section
variable {t : Summation ℝ ℂ} {c : Convergence ℝ} (tighter : c.Tightens t.convergence)
include tighter

/-- The running sums are the same under both settings, and so is what a shell does to them. -/
theorem passing_of_tightens {s : ℕ} (passed : (t.under c).passing s = true) :
    t.passing s = true := by
  unfold passing at passed ⊢
  rw [summed_under tighter.firstRound] at passed
  exact SumState.passes_of_tightens _ tighter passed

theorem settled_of_tightens {s : ℕ} (settled : (t.under c).Settled s) : t.Settled s := by
  obtain ⟨enough, run⟩ := settled
  have fewer := tighter.convergedRounds
  have wanted : c.convergedRounds ≤ s := enough
  constructor
  · omega
  · intro i low late
    have later : (s : ℤ) - c.convergedRounds < i := by omega
    exact passing_of_tightens tighter (run i low later)

theorem mayStop_of_tightens {s : ℕ} (stops : (t.under c).MayStop s) : t.MayStop s := by
  rcases stops with settled | capped
  · left
    exact settled_of_tightens tighter settled
  · right
    have cap : max 0 (c.maxShells - c.firstRound) ≤ s := capped
    have fewer := tighter.maxShells
    have same := tighter.firstRound
    omega

theorem stop_le_of_tightens {s s' : ℕ} (least : IsLeast {s | t.MayStop s} s)
    (least' : IsLeast {s | (t.under c).MayStop s} s') : s ≤ s' :=
  least.2 (mayStop_of_tightens tighter least'.1)

/-- However the two sums end, the one under tighter settings has gone through as many rounds, and
counted as many cells and shells, at least. -/
theorem Ends.le_of_tightens {n n' : ℕ} {result result' : LatticeSum ℂ} (ends : t.Ends n result)
    (ends' : (t.under c).Ends n' result') :
    n ≤ n' ∧ result.cellCount ≤ result'.cellCount ∧ result.shellCount ≤ result'.shellCount := by
  have cells := cellsIn_under (R := ℝ) (C := ℂ) tighter.firstRound
  have singular := singularRound_under (R := ℝ) (C := ℂ) tighter.firstRound
  cases ends with
  | stopped s least regular =>
    cases ends' with
    | stopped s' least' regular' =>
      have later := stop_le_of_tightens tighter least least'
      rw [cells]
      have counted := t.cellsIn_mono (Nat.succ_le_succ later)
      exact ⟨by omega, Int.ofNat_le.mpr counted, Int.ofNat_le.mpr later⟩
    | singular s' k least' reached found =>
      rw [singular] at found
      -- The singular round was not met up to the stop under the looser settings.
      have later : s < k := by
        by_contra before
        exact regular k (not_lt.mp before) found.1
      rw [cells]
      have counted := t.cellsIn_mono (Nat.succ_le_of_lt later)
      exact ⟨by omega, Int.ofNat_le.mpr counted, Int.ofNat_le.mpr (Nat.le_sub_one_of_lt later)⟩
  | singular s k least reached found =>
    cases ends' with
    | stopped s' least' regular' =>
      have later := stop_le_of_tightens tighter least least'
      rw [singular] at regular'
      exact absurd found.1 (regular' k (reached.trans later))
    | singular s' k' least' reached' found' =>
      rw [singular] at found'
      have same : k = k' := found.unique found'
      subst same
      rw [cells]
      exact ⟨le_rfl, le_rfl, le_rfl⟩

end

/-- Under tighter settings a sum asks its series for the same lists of cells, in the same order, and
perhaps for more of them after these; so it counts as many cells and shells, at least. -/
theorem run_under_tighter (t : Summation ℝ ℂ) {c : Convergence ℝ}
    (tighter : c.Tightens t.convergence) (first : 0 ≤ t.convergence.firstRound)
    (description description' : String) :
    ∃ result asked events result' asked' events',
      t.run description = Attempt.done (result, asked) events ∧
      (t.under c).run description' = Attempt.done (result', asked') events' ∧
      asked <+: asked' ∧ result.cellCount ≤ result'.cellCount ∧
      result.shellCount ≤ result'.shellCount := by
  obtain ⟨n, result, ends⟩ := t.exists_ends
  obtain ⟨n', result', ends'⟩ := (t.under c).exists_ends
  have first' : 0 ≤ (t.under c).convergence.firstRound := first.trans_eq tighter.firstRound.symm
  obtain ⟨longer, cells, shells⟩ := ends.le_of_tightens tighter ends'
  have asked : t.rounds n <+: (t.under c).rounds n' := by
    rw [rounds_under tighter.firstRound]
    exact t.rounds_prefix longer
  exact ⟨result, _, _, result', _, _, t.run_of_ends description (fun _ => first) ends,
    (t.under c).run_of_ends description' (fun _ => first') ends', asked, cells, shells⟩

/-- A sum over a line whose sixth shell is singular, as soon as two shells pass. -/
noncomputable def singularSixthShell : Summation ℝ ℂ where
  series cells := pure ⟨Slots.replicate 1, cells.any fun cell => decide (cell.radius = 6)⟩
  dimension := 1
  convergence :=
    { absoluteTolerance := 0, relativeTolerance := 1, slotFloor := 1, firstRound := 0
      maxShells := 9, convergedRounds := 2 }
  excludeInner := true

/-- The same sum, should the relative change stay below a third over three shells. -/
theorem run_under_tighter_singularSixthShell :
    let c : Convergence ℝ :=
      { absoluteTolerance := -1, relativeTolerance := 1 / 3, slotFloor := 0, firstRound := 0
        maxShells := 20, convergedRounds := 3 }
    c.Tightens singularSixthShell.convergence ∧
    ∃ result asked events result' asked' events',
      singularSixthShell.run "sum" = Attempt.done (result, asked) events ∧
      (singularSixthShell.under c).run "sum" = Attempt.done (result', asked') events' ∧
      asked <+: asked' ∧ result.cellCount ≤ result'.cellCount ∧
      result.shellCount ≤ result'.shellCount := by
  intro c
  have tighter : c.Tightens singularSixthShell.convergence := by
    constructor <;> norm_num [c, singularSixthShell]
  exact ⟨tighter, singularSixthShell.run_under_tighter tighter le_rfl "sum" "sum"⟩

end Summation

end LatticeGreen
