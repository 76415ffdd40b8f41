import LatticeGreen.Proofs.RenamedSums

/-!
# Sums without splitting

For the splitting parameter zero each cell contributes the whole kernel, the distant sum is empty
and nothing is taken off. However many shells the sum runs, and at grazing orders too, an evaluation
is the plain sum over the cells that it has asked for.
-/
namespace LatticeGreen
open Attempt

namespace Summation
variable {R C : Type}

/-- A sum that leaves the innermost cells out of a first block which holds them has asked for the
outer cells of one block, in another order. -/
theorem flatten_rounds_perm_outer (t : Summation R C) (first : 1 ≤ t.convergence.firstRound)
    (excluded : t.excludeInner = true) (s : Nat) :
    (t.rounds (s + 1)).flatten.Perm
      (Cell.outer (Cell.block t.dimension (t.convergence.firstRound + s))) := by
  have begun : 0 ≤ t.convergence.firstRound := by omega
  have once : (Cell.outer (Cell.block t.dimension (t.convergence.firstRound + s))).Nodup :=
    (Cell.nodup_block _ _).filter _
  refine (List.perm_ext_iff_of_nodup (t.nodup_flatten_rounds begun s) once).mpr ?_
  intro cell
  rw [t.mem_flatten_rounds_excluded begun excluded, Cell.outer, List.mem_filter, Cell.mem_block,
    decide_eq_true_iff]
  constructor
  · rintro ⟨inPlane, beyond, reached⟩
    exact ⟨⟨inPlane, reached⟩, by omega⟩
  · rintro ⟨⟨inPlane, reached⟩, beyond⟩
    exact ⟨inPlane, by omega, reached⟩

end Summation

namespace Nearby

/-- The plain sum over cells: the kernel at each displacement, times the Bloch phase. -/
noncomputable def plainSum (near : Nearby ℝ ℂ) (cells : List Cell) : Slots ℂ :=
  Slots.sum (cells.map fun cell =>
    (FreeSpace.green near.wavenumber (near.displacement cell)).map (near.phase cell * ·))

variable [SpecialFunctions ℂ]

theorem sum_term_unsplit (near : Nearby ℝ ℂ) (unsplit : near.splitting = 0) (cells : List Cell) :
    Slots.sum (cells.map near.term) = near.plainSum cells := by
  have whole : (near.splitting == 0.0) = true := by simp [beq_zero_exact, unsplit]
  have halves := near.sum_term_add_longRange cells (.inl unsplit)
  rw [near.value_longRange_unsplit whole] at halves
  exact (add_zero _).symm.trans halves

/-- Without splitting a nearby sum is the plain sum over all cells up to its last shell, but for the
innermost ones if these are left out. -/
theorem values_unsplit (near : Nearby ℝ ℂ) (unsplit : near.splitting = 0) (c : Convergence ℝ)
    (first : 0 ≤ c.firstRound) (excludeInner : Bool) {result : LatticeSum ℂ}
    {events : List (Event ℝ)} (summed : near.construct c excludeInner = done result events) :
    let cells := Cell.block near.basis.dimension (c.firstRound + result.shellCount)
    (excludeInner = false → result.values = near.plainSum cells) ∧
      (excludeInner = true → 1 ≤ c.firstRound →
        result.values = near.plainSum (Cell.outer cells)) := by
  obtain ⟨s, shells, -, total⟩ := near.values_construct c excludeInner (fun _ => first) summed
  let t := near.summation c excludeInner
  have additive : ∀ cells, t.contribution cells = Slots.sum (cells.map near.term) :=
    near.shell_eq_sum
  rw [total, t.summed_of_additive exactAddition_complex near.term additive, shells]
  refine ⟨fun whole => ?_, fun excluded beyond => ?_⟩
  · rw [exactAddition_complex.sum_perm ((t.flatten_rounds_perm_block first whole s).map near.term)]
    exact near.sum_term_unsplit unsplit _
  · rw [exactAddition_complex.sum_perm
      ((t.flatten_rounds_perm_outer beyond excluded s).map near.term)]
    exact near.sum_term_unsplit unsplit _

end Nearby

section
variable [SpecialFunctions ℂ]

theorem Distant.construct_unsplit (far : Distant ℝ ℂ) (unsplit : far.splitting = 0)
    (c : Convergence ℝ) (obstacles : Obstacles ℝ) :
    far.construct c obstacles = pure LatticeSum.empty := by
  have whole : (far.splitting == 0.0) = true := by simp [beq_zero_exact, unsplit]
  unfold construct
  rw [if_pos whole]

namespace PeriodicGreen

theorem correction_unsplit (green : PeriodicGreen ℝ) (near : Nearby ℝ ℂ)
    (unsplit : near.splitting = 0) : green.correction near = Slots.zero := by
  have whole : (near.splitting == 0.0) = true := by simp [beq_zero_exact, unsplit]
  unfold correction
  split
  · exact near.value_longRange_unsplit whole _
  · rfl

/-- Without splitting a pair of sums is the nearby sum alone. -/
theorem trial_unsplit (green : PeriodicGreen ℝ) (near : Nearby ℝ ℂ) (unsplit : near.splitting = 0)
    (r : Reciprocal ℝ) (retried : Bool) :
    green.trial near r retried = (fun nearby => ⟨nearby.values, nearby, LatticeSum.empty,
      Slots.zero, near.splitting, near.bloch, retried⟩) <$>
        (near.construct green.convergence green.excludeInner green.obstacles).answer := by
  have nothing : ∀ values : Slots ℂ,
      values + (LatticeSum.empty : LatticeSum ℂ).values - Slots.zero = values :=
    fun values => (sub_zero _).trans (add_zero values)
  rw [trial_eq, (near.distant r).construct_unsplit unsplit, green.correction_unsplit near unsplit,
    map_eq_pure_bind]
  refine bind_congr fun nearby => ?_
  rw [answer_pure, pure_bind, nothing]

/-- Without splitting an evaluation is the plain sum over all cells up to the last shell that the
nearby sum has gone to, or over all but the innermost ones. The distant sum is empty and never
singular, so nothing is retried, whether orders graze the lattice or not. -/
theorem evaluate_unsplit {lattice : Lattice ℝ} {basis : Basis ℝ}
    (vectors : lattice.vectors = .ok basis) (spans : basis.Spans) {point : RealArray ℝ}
    {p : Vec3 ℝ} (place : readPoint point = .ok p) {bloch : RealArray ℝ} {b : Vec2 ℝ}
    (phase : readBloch lattice.dimension bloch = .ok b) {k : ℂ} (wave : k ≠ 0)
    {c : Convergence ℝ} (first : 0 ≤ c.firstRound) (excludeInner : Bool) :
    ∃ result : Evaluation ℝ ℂ, ∃ events,
      (⟨lattice, 0, excludeInner, c, {}⟩ : PeriodicGreen ℝ).evaluate point k bloch =
        done result events ∧
      result.distant = LatticeSum.empty ∧ result.innerCorrection = 0 ∧ result.retried = false ∧
      result.splitting = 0 ∧ result.bloch = b ∧
      let near : Nearby ℝ ℂ := ⟨p, k, b, basis, 0⟩
      let cells := Cell.block basis.dimension (c.firstRound + result.nearby.shellCount)
      (excludeInner = false → result.values = near.plainSum cells) ∧
        (excludeInner = true → 1 ≤ c.firstRound →
          result.values = near.plainSum (Cell.outer cells)) := by
  let green : PeriodicGreen ℝ := ⟨lattice, 0, excludeInner, c, {}⟩
  let near : Nearby ℝ ℂ := ⟨p, k, b, basis, 0⟩
  obtain ⟨r, built⟩ := Reciprocal.exists_construct spans k p
  have reciprocal : lattice.reciprocal k p = .ok r := by
    rw [Lattice.reciprocal_eq vectors, built]
    rfl
  have given : green.nearFor p k b basis r = near := by
    have chosen : ((0 : ℝ) == automatic) = false := by
      rw [beq_eq_false_iff_ne]
      norm_num [automatic]
    have splitting : green.splittingFor r = 0 := if_neg (Bool.eq_false_iff.mp chosen)
    unfold nearFor
    rw [splitting]
  obtain ⟨nearby, noted, summed, -⟩ :=
    (near.within_construct c excludeInner (fun _ => first)).exists_done
  have tried : green.trial near r false =
      .ok ⟨nearby.values, nearby, LatticeSum.empty, Slots.zero, 0, b, false⟩ := by
    rw [green.trial_unsplit near rfl]
    change _ <$> (near.construct c excludeInner).answer = _
    rw [summed]
    rfl
  have ends : green.EndsAtOnce point k bloch
      ⟨nearby.values, nearby, LatticeSum.empty, Slots.zero, 0, b, false⟩ :=
    .regular p b basis r _ place phase (by simpa using wave) vectors reciprocal (given ▸ tried) rfl
  obtain ⟨events, ran⟩ := ends.exists_done
  exact ⟨_, events, ran, rfl, rfl, rfl, rfl, rfl,
    near.values_unsplit rfl c first excludeInner summed⟩

end PeriodicGreen

end

/-- The Bloch vector makes the order of the origin graze the line, and the sum goes on all the
same. -/
theorem PeriodicGreen.evaluate_unsplit_on_light_line :
    LineOrder.isSingular (1 : ℂ) 1 = true ∧
      ∃ result : Evaluation ℝ ℂ, ∃ events,
        (⟨outerUnitLine.lattice, 0, false, fiveShells, {}⟩ : PeriodicGreen ℝ).evaluate
          (.ofList [0.1, 0.2, 0.3]) (1 : ℂ) (.ofList [1]) = done result events ∧
        result.retried = false ∧
        let near : Nearby ℝ ℂ := ⟨⟨0.1, 0.2, 0.3⟩, 1, ⟨1, 0.0⟩, .line ⟨1, 0⟩, 0⟩
        result.values = near.plainSum (Cell.block 1 (1 + result.nearby.shellCount)) := by
  have spans : (Basis.line ⟨1, 0⟩).Spans := by norm_num [Basis.Spans]
  have vectors : outerUnitLine.lattice.vectors = .ok (.line ⟨1, 0⟩) := rfl
  have place : readPoint (.ofList [0.1, 0.2, 0.3]) =
    .ok (⟨0.1, 0.2, 0.3⟩ : Vec3 ℝ) := rfl
  have phase : readBloch outerUnitLine.lattice.dimension (.ofList [1]) =
    .ok (⟨1, 0.0⟩ : Vec2 ℝ) := rfl
  have grazing : LineOrder.isSingular (1 : ℂ) 1 = true := by
    have level : LineOrder.transverse (1 : ℂ) 1 = 0 := by
      apply Complex.ext <;> simp [LineOrder.transverse, transverseSquare]
    unfold LineOrder.isSingular grazes
    rw [level, decide_eq_true_iff]
    norm_num [singularThreshold]
  obtain ⟨result, events, ran, -, -, once, -, -, whole, -⟩ := evaluate_unsplit vectors spans place
    phase (k := 1) one_ne_zero (c := fiveShells) (by decide) false
  exact ⟨grazing, result, events, ran, once, whole rfl⟩

end LatticeGreen
