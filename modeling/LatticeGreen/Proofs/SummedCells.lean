import LatticeGreen.Proofs.ExactScalars
import LatticeGreen.Proofs.StoppingRule

/-!
# The cells of a lattice sum

The first block and the shells around it meet nowhere and leave nothing out: whatever the first
round is and however many shells follow, a sum over a whole first block has asked for the cells of
one larger block, each once.
-/
namespace LatticeGreen.Summation
open Cell
variable {R C : Type}

/-! ## Cells of a round -/

theorem mem_round_zero (t : Summation R C) (cell : Cell) :
    cell ∈ t.round 0 ↔ OnLattice t.dimension cell ∧
      (cell.radius : Int) ≤ t.convergence.firstRound ∧
      (t.excludeInner = true → 1 < cell.radius) := by
  unfold round firstBlock
  cases t.excludeInner with
  | false => simp [mem_block]
  | true => simp [outer, mem_block, and_assoc]

theorem mem_round_succ (t : Summation R C) (first : 0 ≤ t.convergence.firstRound) (k : Nat)
    (cell : Cell) :
    cell ∈ t.round (k + 1) ↔ OnLattice t.dimension cell ∧
      (cell.radius : Int) = t.convergence.firstRound + (k + 1 : Nat) :=
  mem_shell t.dimension _ (by omega) cell

theorem nodup_round (t : Summation R C) (first : 0 ≤ t.convergence.firstRound) (k : Nat) :
    (t.round k).Nodup := by
  cases k with
  | zero =>
    unfold round firstBlock
    cases t.excludeInner with
    | false => exact nodup_block _ _
    | true => exact (nodup_block _ _).filter _
  | succ k => exact nodup_shell t.dimension _ (by omega)

/-! ## Cells of a run -/

/-- A round that is not asked for has no cells. -/
theorem flatten_rounds_succ (t : Summation R C) (k : Nat) :
    (t.rounds (k + 1)).flatten = (t.rounds k).flatten ++ t.round k := by
  rw [rounds_succ]
  split
  · rw [List.flatten_append, List.flatten_singleton]
  · rename_i passed_over
    cases k with
    | zero =>
      have empty : t.round 0 = [] := by simpa [asks] using passed_over
      rw [empty, List.append_nil]
    | succ k => exact absurd rfl passed_over

/-- A sum that stops after shell `s` has asked for the cells up to that shell, but for those that
were left out of the first block. -/
theorem mem_flatten_rounds (t : Summation R C) (first : 0 ≤ t.convergence.firstRound) (s : Nat)
    (cell : Cell) :
    cell ∈ (t.rounds (s + 1)).flatten ↔ OnLattice t.dimension cell ∧
      (cell.radius : Int) ≤ t.convergence.firstRound + s ∧
      (t.excludeInner = true → (cell.radius : Int) ≤ t.convergence.firstRound →
        1 < cell.radius) := by
  induction s with
  | zero =>
    rw [flatten_rounds_succ, List.mem_append, mem_round_zero]
    grind [rounds]
  | succ s ih =>
    rw [flatten_rounds_succ, List.mem_append, ih, mem_round_succ t first]
    grind

/-- No cell is asked for twice. -/
theorem nodup_flatten_rounds (t : Summation R C) (first : 0 ≤ t.convergence.firstRound)
    (s : Nat) : (t.rounds (s + 1)).flatten.Nodup := by
  induction s with
  | zero =>
    rw [flatten_rounds_succ]
    exact t.nodup_round first 0
  | succ s ih =>
    rw [flatten_rounds_succ]
    refine ih.append (t.nodup_round first (s + 1)) ?_
    -- The next shell is farther out than every cell so far.
    intro cell earlier outside
    have inner := ((t.mem_flatten_rounds first s cell).mp earlier).2.1
    have border := ((t.mem_round_succ first s cell).mp outside).2
    omega

/-- A sum over a whole first block has asked for the cells of one block, in another order. -/
theorem flatten_rounds_perm_block (t : Summation R C) (first : 0 ≤ t.convergence.firstRound)
    (whole : t.excludeInner = false) (s : Nat) :
    (t.rounds (s + 1)).flatten.Perm (block t.dimension (t.convergence.firstRound + s)) := by
  refine (List.perm_ext_iff_of_nodup (t.nodup_flatten_rounds first s) (nodup_block _ _)).mpr ?_
  intro cell
  rw [t.mem_flatten_rounds first, mem_block, whole]
  simp

section
variable [OfScientific R] [ComplexFunctions R C] [Add C]

/-- Where addition does not round, the running sums of an additive series are sums over cells. -/
theorem summed_of_additive (t : Summation R C) (exact : ExactAddition R C) (term : Cell → Slots C)
    (additive : ∀ cells, t.contribution cells = Slots.sum (cells.map term)) (k : Nat) :
    t.summed k = Slots.sum ((t.rounds k).flatten.map term) := by
  have grouped : (t.rounds k).map t.contribution =
      ((t.rounds k).map (List.map term)).map Slots.sum := by
    rw [List.map_map]
    exact List.map_congr_left fun cells _ => additive cells
  unfold summed
  rw [grouped, ← exact.sum_flatten, List.map_flatten]

variable [Mul R] [Div R] [LT R] [DecidableLT R] [RealFunctions R] [Sub C]

/-- A sum over a whole first block without a singular term is a block sum: the lists of cells its
series was asked for hold every cell of the block up to its last shell once and no other, the
result counts them, and where addition does not round it is the plain sum over that block. -/
theorem run_sums_block (t : Summation R C) (description : String)
    (line_or_plane : t.dimension = 1 ∨ t.dimension = 2) (first : 0 ≤ t.convergence.firstRound)
    (whole : t.excludeInner = false)
    (regular : ∀ cells, (t.series cells).value.singular = false) :
    ∃ result blocks events, t.run description = Attempt.done (result, blocks) events ∧
      blocks.flatten.Nodup ∧
      (∀ cell, cell ∈ blocks.flatten ↔ OnLattice t.dimension cell ∧
        (cell.radius : Int) ≤ t.convergence.firstRound + result.shellCount) ∧
      result.cellCount =
        (2 * (t.convergence.firstRound + result.shellCount) + 1) ^ t.dimension.toNat ∧
      ∀ term : Cell → Slots C, ExactAddition R C →
        (∀ cells, t.contribution cells = Slots.sum (cells.map term)) →
        result.values = Slots.sum
          ((block t.dimension (t.convergence.firstRound + result.shellCount)).map term) := by
  obtain ⟨s, least⟩ := t.exists_isLeast_mayStop
  have unbroken : ∀ k ≤ s, ¬ t.SingularRound k := by
    intro k _ singular
    rw [SingularRound, regular] at singular
    exact Bool.false_ne_true singular.2
  have tiled := t.flatten_rounds_perm_block first whole s
  refine ⟨_, _, _, t.run_stopped description (fun _ => first) s least unbroken,
    t.nodup_flatten_rounds first s, ?_, ?_, ?_⟩
  · intro cell
    rw [tiled.mem_iff, mem_block]
  · change (t.cellsIn (s + 1) : Int) = (2 * (t.convergence.firstRound + s) + 1) ^ _
    rw [cellsIn, tiled.length_eq]
    exact length_block _ _ line_or_plane (by omega)
  · intro term exact additive
    change t.summed (s + 1) = _
    rw [t.summed_of_additive exact term additive]
    exact exact.sum_perm (tiled.map term)

end

/-- The squared distance of a cell from the origin, in every slot. -/
noncomputable def squaredDistance (cell : Cell) : Slots ℂ :=
  Slots.replicate ((cell.n1 ^ 2 + cell.n2 ^ 2 : Int) : ℂ)

/-- A sum in the plane, of squared distances. -/
noncomputable def squaredDistances : Summation ℝ ℂ where
  series cells := pure ⟨Slots.sum (cells.map squaredDistance), false⟩
  dimension := 2
  convergence :=
    { absoluteTolerance := 0, relativeTolerance := 1, slotFloor := 0, firstRound := 1
      maxShells := 9, convergedRounds := 2 }
  excludeInner := false

theorem run_squaredDistances :
    ∃ result blocks events, squaredDistances.run "sum" = Attempt.done (result, blocks) events ∧
      blocks.flatten.Nodup ∧ result.cellCount = (2 * (1 + result.shellCount) + 1) ^ 2 ∧
      result.values = Slots.sum ((block 2 (1 + result.shellCount)).map squaredDistance) := by
  obtain ⟨result, blocks, events, ran, once, -, counted, total⟩ :=
    squaredDistances.run_sums_block "sum" (.inr rfl) (by decide) rfl (fun _ => rfl)
  exact ⟨result, blocks, events, ran, once, counted,
    total squaredDistance exactAddition_complex fun _ => rfl⟩

end LatticeGreen.Summation
